import TTXla.Lib.Bytes
import TTXla.Lib.Options
import Mathlib.Data.Option.Basic

-- Messages in the wire format of protocol buffers: fields with a number and a wire type,
-- without the schema that gives them a meaning.
namespace TTXla.Wire

open Bytes

-- A number in digits of seven bits, the lowest first, with a mark on every digit but the last;
-- `n` is how many digits may follow the first.
def digits : Nat → Nat → List UInt8
  | 0, v => [UInt8.ofNat v]
  | n + 1, v =>
      if v < 128 then [UInt8.ofNat v] else UInt8.ofNat (v % 128 + 128) :: digits n (v / 128)

def read_digits : Nat → List UInt8 → Option (Nat × List UInt8)
  | _, [] => none
  | 0, b :: bs => if b.toNat < 128 then some (b.toNat, bs) else none
  | n + 1, b :: bs =>
      if b.toNat < 128 then some (b.toNat, bs)
      else (read_digits n bs).map fun x => (b.toNat - 128 + 128 * x.1, x.2)

def varint (v : Nat) : List UInt8 := digits 9 v

def read_varint (bs : List UInt8) : Option (Nat × List UInt8) := read_digits 9 bs

theorem digits_ne_nil (n v : Nat) : digits n v ≠ [] := by
  cases n with
  | zero => exact List.cons_ne_nil _ _
  | succ n =>
      unfold digits
      split <;> exact List.cons_ne_nil _ _

theorem length_varint_pos (v : Nat) : 0 < (varint v).length :=
  List.length_pos_iff.mpr (digits_ne_nil 9 v)

theorem read_digits_digits (n : Nat) {v : Nat} (hv : v < 128 ^ (n + 1)) (rest : List UInt8) :
    read_digits n (digits n v ++ rest) = some (v, rest) := by
  induction n generalizing v with
  | zero =>
      have hlow : (UInt8.ofNat v).toNat = v := by
        rw [UInt8.toNat_ofNat']
        omega
      have hlt : (UInt8.ofNat v).toNat < 128 := by omega
      rw [digits, List.singleton_append, read_digits, if_pos hlt, hlow]
  | succ n ih =>
      unfold digits
      split
      · have hlow : (UInt8.ofNat v).toNat = v := by
          rw [UInt8.toNat_ofNat']
          omega
        have hlt : (UInt8.ofNat v).toNat < 128 := by omega
        rw [List.singleton_append, read_digits, if_pos hlt, hlow]
      · have hmark : (UInt8.ofNat (v % 128 + 128)).toNat = v % 128 + 128 := by
          rw [UInt8.toNat_ofNat']
          omega
        have hge : ¬(UInt8.ofNat (v % 128 + 128)).toNat < 128 := by omega
        have hrest : v / 128 < 128 ^ (n + 1) := by
          rw [Nat.div_lt_iff_lt_mul (by omega)]
          exact hv
        rw [List.cons_append, read_digits, if_neg hge, ih hrest, hmark]
        have hsum : v % 128 + 128 - 128 + 128 * (v / 128) = v := by omega
        rw [Option.map_some, hsum]

theorem read_varint_varint {v : Nat} (hv : v < 2 ^ 64) (rest : List UInt8) :
    read_varint (varint v ++ rest) = some (v, rest) :=
  read_digits_digits 9 (by omega) rest

-- What is read is a part of the input, and reads alone as the same number.
theorem read_digits_prefix {n v : Nat} {bs rest : List UInt8}
    (h : read_digits n bs = some (v, rest)) :
    ∃ read, bs = read ++ rest ∧ read ≠ [] ∧ read_digits n read = some (v, []) := by
  induction n generalizing bs v with
  | zero =>
      cases bs with
      | nil => cases h
      | cons b bs =>
          unfold read_digits at h
          split at h
          · rename_i hb
            cases h
            exact ⟨[b], rfl, List.cons_ne_nil _ _, by rw [read_digits, if_pos hb]⟩
          · cases h
  | succ n ih =>
      cases bs with
      | nil => cases h
      | cons b bs =>
          unfold read_digits at h
          split at h
          · rename_i hb
            cases h
            exact ⟨[b], rfl, List.cons_ne_nil _ _, by rw [read_digits, if_pos hb]⟩
          · rename_i hb
            obtain ⟨⟨v', rest'⟩, hread, h⟩ := Option.map_eq_some_iff.mp h
            cases h
            obtain ⟨read, rfl, -, hread⟩ := ih hread
            refine ⟨b :: read, rfl, List.cons_ne_nil _ _, ?_⟩
            rw [read_digits, if_neg hb, hread]
            rfl

inductive UnknownField where
  | varint (number : Nat) (value : UInt64)
  | fixed32 (number : Nat) (value : UInt32)
  | fixed64 (number : Nat) (value : UInt64)
  | length_delimited (number : Nat) (data : List UInt8)
  | group (number : Nat) (fields : List UnknownField)

def UnknownField.number : UnknownField → Nat
  | .varint number _ => number
  | .fixed32 number _ => number
  | .fixed64 number _ => number
  | .length_delimited number _ => number
  | .group number _ => number

def tag (number wire_type : Nat) : List UInt8 := varint (8 * number + wire_type)

mutual

def UnknownField.encode : UnknownField → List UInt8
  | .varint number value => tag number 0 ++ Wire.varint value.toNat
  | .fixed64 number value => tag number 1 ++ to_bytes 8 value.toNat
  | .length_delimited number data => tag number 2 ++ Wire.varint data.length ++ data
  | .group number fields => tag number 3 ++ encode fields ++ tag number 4
  | .fixed32 number value => tag number 5 ++ to_bytes 4 value.toNat

def encode : List UnknownField → List UInt8
  | [] => []
  | field :: fields => field.encode ++ encode fields

end

def read_fixed (n : Nat) (bs : List UInt8) : Option (Nat × List UInt8) :=
  if n ≤ bs.length then some (from_bytes (bs.take n), bs.drop n) else none

-- What a reader of fields gives: the fields up to the end of the input, or up to the end of a
-- group, whose number is given with the rest.
abbrev Read := List UnknownField × Option Nat × List UInt8

-- `depth` is how many groups may be opened.
def nested (read : Nat → List UInt8 → Option Read) : Nat → List UInt8 → Option Read
  | 0, _ => none
  | depth + 1, bs => read depth bs

def read_value (read_group : List UInt8 → Option Read) (number wire_type : Nat)
    (bs : List UInt8) : Option (UnknownField × List UInt8) :=
  match wire_type with
  | 0 => do
      let value ← read_varint bs
      return (.varint number (UInt64.ofNat value.1), value.2)
  | 1 => do
      let value ← read_fixed 8 bs
      return (.fixed64 number (UInt64.ofNat value.1), value.2)
  | 2 => do
      let size ← read_varint bs
      guard (size.1 < 2 ^ 31 ∧ size.1 ≤ size.2.length)
      return (.length_delimited number (size.2.take size.1), size.2.drop size.1)
  | 3 => do
      let fields ← read_group bs
      guard (fields.2.1 = some number)
      return (.group number fields.1, fields.2.2)
  | 5 => do
      let value ← read_fixed 4 bs
      return (.fixed32 number (UInt32.ofNat value.1), value.2)
  | _ => none

def read_fields : Nat → Nat → List UInt8 → Option Read
  | 0, _, _ => none
  | fuel + 1, depth, bs =>
      if bs = [] then some ([], none, [])
      else do
        let tag ← read_varint bs
        let number := tag.1 / 8
        guard (0 < number ∧ number < 2 ^ 29)
        if tag.1 % 8 = 4 then return ([], some number, tag.2)
        else
          let field ← read_value (nested (read_fields fuel) depth) number (tag.1 % 8) tag.2
          let fields ← read_fields fuel depth field.2
          return (field.1 :: fields.1, fields.2)

-- The fields of a message, in which at most `depth` groups are open at a time.
def parse (depth : Nat) (bs : List UInt8) : Option (List UnknownField) := do
  let fields ← read_fields (bs.length + 1) depth bs
  guard (fields.2.1 = none)
  return fields.1

-- A field that a message may hold inside at most `depth` groups.
inductive UnknownField.Fits : Nat → UnknownField → Prop
  | varint {depth number : Nat} {value : UInt64} (h : 0 < number ∧ number < 2 ^ 29) :
      Fits depth (.varint number value)
  | fixed32 {depth number : Nat} {value : UInt32} (h : 0 < number ∧ number < 2 ^ 29) :
      Fits depth (.fixed32 number value)
  | fixed64 {depth number : Nat} {value : UInt64} (h : 0 < number ∧ number < 2 ^ 29) :
      Fits depth (.fixed64 number value)
  | length_delimited {depth number : Nat} {data : List UInt8}
      (h : 0 < number ∧ number < 2 ^ 29) (hdata : data.length < 2 ^ 31) :
      Fits depth (.length_delimited number data)
  | group {depth number : Nat} {fields : List UnknownField} (h : 0 < number ∧ number < 2 ^ 29)
      (hfields : ∀ field ∈ fields, Fits depth field) : Fits (depth + 1) (.group number fields)

-- A field without groups that a message may hold.
def UnknownField.fits_flat : UnknownField → Bool
  | .varint number _ => 0 < number ∧ number < 2 ^ 29
  | .fixed32 number _ => 0 < number ∧ number < 2 ^ 29
  | .fixed64 number _ => 0 < number ∧ number < 2 ^ 29
  | .length_delimited number data => (0 < number ∧ number < 2 ^ 29) ∧ data.length < 2 ^ 31
  | .group _ _ => false

theorem UnknownField.Fits.of_flat {field : UnknownField} (h : field.fits_flat) (depth : Nat) :
    field.Fits depth := by
  cases field with
  | varint number value => exact .varint (of_decide_eq_true h)
  | fixed32 number value => exact .fixed32 (of_decide_eq_true h)
  | fixed64 number value => exact .fixed64 (of_decide_eq_true h)
  | length_delimited number data =>
      obtain ⟨hnumber, hdata⟩ := of_decide_eq_true h
      exact .length_delimited hnumber hdata
  | group number fields => cases h

theorem read_tag {number wire_type : Nat} (hnumber : number < 2 ^ 29) (hwire : wire_type < 8)
    (rest : List UInt8) :
    read_varint (tag number wire_type ++ rest) = some (8 * number + wire_type, rest) :=
  read_varint_varint (by omega) rest

theorem read_fixed_to_bytes (n v : Nat) (rest : List UInt8) :
    read_fixed n (to_bytes n v ++ rest) = some (v % 256 ^ n, rest) := by
  have hle : n ≤ (to_bytes n v ++ rest).length := by
    rw [List.length_append, length_to_bytes]
    omega
  have htake : (to_bytes n v ++ rest).take n = to_bytes n v :=
    List.take_left' (length_to_bytes n v)
  have hdrop : (to_bytes n v ++ rest).drop n = rest := List.drop_left' (length_to_bytes n v)
  rw [read_fixed, if_pos hle, htake, hdrop, from_bytes_to_bytes]

-- Where a reader of fields stops: at the end of the input, or behind the end of a group.
inductive Stops : List UInt8 → Option Nat → List UInt8 → Prop
  | input : Stops [] none []
  | group {number : Nat} (h : 0 < number ∧ number < 2 ^ 29) (rest : List UInt8) :
      Stops (tag number 4 ++ rest) (some number) rest

theorem length_tag_pos (number wire_type : Nat) : 0 < (tag number wire_type).length :=
  length_varint_pos _

theorem read_fields_tag {fuel depth number wire_type : Nat} (value : List UInt8)
    (hnumber : 0 < number ∧ number < 2 ^ 29) (hwire : wire_type < 8) :
    read_fields (fuel + 1) depth (tag number wire_type ++ value) =
      if wire_type = 4 then some ([], some number, value)
      else (read_value (nested (read_fields fuel) depth) number wire_type value).bind fun field =>
        (read_fields fuel depth field.2).map fun fields => (field.1 :: fields.1, fields.2) := by
  have hne : tag number wire_type ++ value ≠ [] := fun h =>
    digits_ne_nil _ _ (List.append_eq_nil_iff.mp h).1
  have hdiv : (8 * number + wire_type) / 8 = number := by omega
  have hmod : (8 * number + wire_type) % 8 = wire_type := by omega
  rw [read_fields, if_neg hne, read_tag hnumber.2 hwire]
  simp only [Option.bind_eq_bind, Option.bind_some, hdiv, hmod]
  rw [(Options.guard_eq_some (u := ())).mpr hnumber, Option.bind_some]
  split
  · rfl
  · congr 1
    funext field
    cases read_fields fuel depth field.2 <;> rfl

theorem read_fields_stop {fuel depth : Nat} {tail rest : List UInt8} {stop : Option Nat}
    (h : Stops tail stop rest) :
    read_fields (fuel + 1) depth tail = some ([], stop, rest) := by
  cases h with
  | input => rfl
  | group hnumber => rw [read_fields_tag rest hnumber (by omega), if_pos rfl]

theorem encode_cons (field : UnknownField) (fields : List UnknownField) :
    encode (field :: fields) = field.encode ++ encode fields := by
  rw [encode]

theorem encode_append (fields fields' : List UnknownField) :
    encode (fields ++ fields') = encode fields ++ encode fields' := by
  induction fields with
  | nil => rw [encode, List.nil_append, List.nil_append]
  | cons field fields ih =>
      rw [List.cons_append, encode_cons, encode_cons, ih, List.append_assoc]

-- The reader reads back what is encoded, up to where it stops.
def ReadsBack (fuel : Nat) : Prop :=
  ∀ {depth : Nat} {fields : List UnknownField} {tail rest : List UInt8} {stop : Option Nat},
    Stops tail stop rest → (∀ field ∈ fields, field.Fits depth) →
    (encode fields ++ tail).length < fuel →
    read_fields fuel depth (encode fields ++ tail) = some (fields, stop, rest)

-- A field is a tag and a value, and the value is read back when the reader of the groups does.
theorem read_value_encode {fuel depth : Nat} {field : UnknownField} (hfits : field.Fits depth)
    (hfuel : ReadsBack fuel) :
    ∃ wire_type value, field.encode = tag field.number wire_type ++ value ∧
      (0 < field.number ∧ field.number < 2 ^ 29) ∧ wire_type < 8 ∧ wire_type ≠ 4 ∧
      ∀ rest, (value ++ rest).length < fuel →
        read_value (nested (read_fields fuel) depth) field.number wire_type (value ++ rest) =
          some (field, rest) := by
  cases hfits with
  | @varint _ number value hnumber =>
      refine ⟨0, varint value.toNat, by rw [UnknownField.encode]; rfl, hnumber, by omega, by omega,
        fun rest _ => ?_⟩
      simp only [read_value, UnknownField.number, read_varint_varint value.toNat_lt,
        Option.bind_eq_bind, Option.bind_some, Option.pure_def, UInt64.ofNat_toNat]
  | @fixed32 _ number value hnumber =>
      have hlt : value.toNat % 256 ^ 4 = value.toNat := Nat.mod_eq_of_lt value.toNat_lt
      refine ⟨5, to_bytes 4 value.toNat, by rw [UnknownField.encode]; rfl, hnumber, by omega,
        by omega, fun rest _ => ?_⟩
      simp only [read_value, UnknownField.number, read_fixed_to_bytes, hlt, Option.bind_eq_bind,
        Option.bind_some, Option.pure_def, UInt32.ofNat_toNat]
  | @fixed64 _ number value hnumber =>
      have hlt : value.toNat % 256 ^ 8 = value.toNat := Nat.mod_eq_of_lt value.toNat_lt
      refine ⟨1, to_bytes 8 value.toNat, by rw [UnknownField.encode]; rfl, hnumber, by omega,
        by omega, fun rest _ => ?_⟩
      simp only [read_value, UnknownField.number, read_fixed_to_bytes, hlt, Option.bind_eq_bind,
        Option.bind_some, Option.pure_def, UInt64.ofNat_toNat]
  | @length_delimited _ number data hnumber hdata =>
      refine ⟨2, varint data.length ++ data,
        by rw [UnknownField.encode, List.append_assoc]; rfl, hnumber, by omega, by omega,
        fun rest _ => ?_⟩
      have hle : data.length < 2 ^ 31 ∧ data.length ≤ (data ++ rest).length := by
        rw [List.length_append]
        omega
      have hsize := read_varint_varint (v := data.length) (by omega) (data ++ rest)
      rw [List.append_assoc]
      simp only [read_value, UnknownField.number, hsize, Option.bind_eq_bind, Option.bind_some,
        (Options.guard_eq_some (u := ())).mpr hle, List.take_left, List.drop_left,
        Option.pure_def]
  | @group depth number inner hnumber hinner =>
      refine ⟨3, encode inner ++ tag number 4,
        by rw [UnknownField.encode, List.append_assoc]; rfl, hnumber, by omega, by omega,
        fun rest hlength => ?_⟩
      rw [List.append_assoc] at hlength ⊢
      have hread := hfuel (.group hnumber rest) hinner hlength
      simp only [read_value, UnknownField.number, nested, hread, Option.bind_eq_bind,
        Option.bind_some, Option.pure_def]
      rfl

theorem readsBack (fuel : Nat) : ReadsBack fuel := by
  induction fuel with
  | zero => exact fun _ _ h => absurd h (Nat.not_lt_zero _)
  | succ fuel ih =>
      intro depth fields tail rest stop hstop hfits hfuel
      cases fields with
      | nil =>
          rw [encode, List.nil_append]
          exact read_fields_stop hstop
      | cons field fields =>
          obtain ⟨wire_type, value, hencode, hnumber, hwire, hgroup, hvalue⟩ :=
            read_value_encode (hfits field List.mem_cons_self) ih
          have htag := length_tag_pos field.number wire_type
          rw [encode_cons, hencode, List.append_assoc, List.append_assoc] at hfuel ⊢
          rw [List.length_append] at hfuel
          have hrest : (encode fields ++ tail).length < fuel := by
            have : (value ++ (encode fields ++ tail)).length =
              value.length + (encode fields ++ tail).length := List.length_append
            omega
          rw [read_fields_tag _ hnumber hwire, if_neg hgroup, hvalue _ (by omega),
            Option.bind_some, ih hstop (fun f hf => hfits f (List.mem_cons_of_mem _ hf)) hrest]
          rfl

theorem parse_encode {depth : Nat} {fields : List UnknownField}
    (hfits : ∀ field ∈ fields, field.Fits depth) : parse depth (encode fields) = some fields := by
  have hread := readsBack ((encode fields).length + 1) .input hfits
    (by rw [List.append_nil]; exact Nat.lt_succ_self _)
  rw [List.append_nil] at hread
  rw [parse, hread]
  rfl

-- A number of at most 64 bits, in any number of digits; a tag has 32 bits.
def SpellsNumber (bs : List UInt8) (v : Nat) : Prop :=
  ∃ n, read_varint bs = some (n, []) ∧ n % 2 ^ 64 = v

def SpellsTag (bs : List UInt8) (number wire_type : Nat) : Prop :=
  ∃ n, read_varint bs = some (n, []) ∧ n % 2 ^ 32 = 8 * number + wire_type ∧ 0 < number

mutual

inductive SpellsField : List UInt8 → UnknownField → Prop
  | varint {t bs : List UInt8} {number v : Nat} (htag : SpellsTag t number 0)
      (hv : SpellsNumber bs v) : SpellsField (t ++ bs) (.varint number (UInt64.ofNat v))
  | fixed64 {t bs : List UInt8} {number : Nat} (htag : SpellsTag t number 1)
      (hbs : bs.length = 8) :
      SpellsField (t ++ bs) (.fixed64 number (UInt64.ofNat (from_bytes bs)))
  | length_delimited {t size data : List UInt8} {number : Nat} (htag : SpellsTag t number 2)
      (hsize : SpellsNumber size data.length) :
      SpellsField (t ++ size ++ data) (.length_delimited number data)
  | group {t bs t' : List UInt8} {number : Nat} {fields : List UnknownField}
      (htag : SpellsTag t number 3) (hfields : Spells bs fields) (hend : SpellsTag t' number 4) :
      SpellsField (t ++ bs ++ t') (.group number fields)
  | fixed32 {t bs : List UInt8} {number : Nat} (htag : SpellsTag t number 5)
      (hbs : bs.length = 4) :
      SpellsField (t ++ bs) (.fixed32 number (UInt32.ofNat (from_bytes bs)))

-- The bytes that are a message with the fields.
inductive Spells : List UInt8 → List UnknownField → Prop
  | nil : Spells [] []
  | cons {bs rest : List UInt8} {field : UnknownField} {fields : List UnknownField}
      (hfield : SpellsField bs field) (hfields : Spells rest fields) :
      Spells (bs ++ rest) (field :: fields)

end

theorem read_fixed_prefix {n v : Nat} {bs rest : List UInt8}
    (h : read_fixed n bs = some (v, rest)) :
    ∃ read, bs = read ++ rest ∧ read.length = n ∧ v = from_bytes read := by
  unfold read_fixed at h
  split at h
  · rename_i hle
    cases h
    exact ⟨bs.take n, (List.take_append_drop n bs).symm,
      List.length_take_of_le hle, rfl⟩
  · cases h

-- What the reader of fields has read, and where it has stopped.
def Took (bs : List UInt8) (r : Read) : Prop :=
  ∃ read, Spells read r.1 ∧ ((r.2.1 = none ∧ bs = read) ∨
    ∃ number t, r.2.1 = some number ∧ SpellsTag t number 4 ∧ bs = read ++ (t ++ r.2.2))

theorem read_value_took {read_group : List UInt8 → Option Read}
    (hgroup : ∀ bs r, read_group bs = some r → Took bs r) {number wire_type : Nat}
    {t bs rest : List UInt8} {field : UnknownField} (htag : SpellsTag t number wire_type)
    (h : read_value read_group number wire_type bs = some (field, rest)) :
    ∃ read, bs = read ++ rest ∧ SpellsField (t ++ read) field := by
  unfold read_value at h
  simp only [Option.bind_eq_bind, Option.pure_def] at h
  split at h
  · obtain ⟨⟨v, rest'⟩, hread, h⟩ := Option.bind_eq_some_iff.mp h
    cases h
    obtain ⟨read, rfl, -, hread⟩ := read_digits_prefix hread
    refine ⟨read, rfl, ?_⟩
    have hmod : UInt64.ofNat v = UInt64.ofNat (v % 2 ^ 64) := UInt64.ofNat_mod_size.symm
    rw [hmod]
    exact .varint htag ⟨v, hread, rfl⟩
  · obtain ⟨⟨v, rest'⟩, hread, h⟩ := Option.bind_eq_some_iff.mp h
    cases h
    obtain ⟨read, rfl, hlength, rfl⟩ := read_fixed_prefix hread
    exact ⟨read, rfl, .fixed64 htag hlength⟩
  · obtain ⟨⟨size, rest'⟩, hread, h⟩ := Option.bind_eq_some_iff.mp h
    obtain ⟨_, hle, h⟩ := Option.bind_eq_some_iff.mp h
    rw [Options.guard_eq_some] at hle
    cases h
    obtain ⟨read, rfl, -, hread⟩ := read_digits_prefix hread
    have hsize : (rest'.take size).length = size := List.length_take_of_le hle.2
    refine ⟨read ++ rest'.take size, ?_, ?_⟩
    · rw [List.append_assoc, List.take_append_drop]
    · rw [← List.append_assoc]
      refine .length_delimited htag ⟨size, hread, ?_⟩
      rw [hsize]
      exact Nat.mod_eq_of_lt (Nat.lt_trans hle.1 (by omega))
  · obtain ⟨⟨fields, stop, rest'⟩, hread, h⟩ := Option.bind_eq_some_iff.mp h
    obtain ⟨_, hstop, h⟩ := Option.bind_eq_some_iff.mp h
    rw [Options.guard_eq_some] at hstop
    cases h
    obtain ⟨read, hfields, ⟨hnone, -⟩ | ⟨number', t', hsome, hend, rfl⟩⟩ := hgroup _ _ hread
    · rw [hnone] at hstop
      cases hstop
    · obtain rfl := Option.some.inj (hsome.symm.trans hstop)
      refine ⟨read ++ t', by rw [List.append_assoc], ?_⟩
      rw [← List.append_assoc]
      exact .group htag hfields hend
  · obtain ⟨⟨v, rest'⟩, hread, h⟩ := Option.bind_eq_some_iff.mp h
    cases h
    obtain ⟨read, rfl, hlength, rfl⟩ := read_fixed_prefix hread
    exact ⟨read, rfl, .fixed32 htag hlength⟩
  · cases h

theorem read_fields_took (fuel : Nat) {depth : Nat} {bs : List UInt8} {r : Read}
    (h : read_fields fuel depth bs = some r) : Took bs r := by
  induction fuel generalizing depth bs r with
  | zero => cases h
  | succ fuel ih =>
      unfold read_fields at h
      split at h
      · rename_i hnil
        cases h
        exact ⟨[], .nil, .inl ⟨rfl, hnil⟩⟩
      · simp only [Option.bind_eq_bind, Option.pure_def] at h
        obtain ⟨⟨n, rest⟩, htook, hn⟩ := Option.bind_eq_some_iff.mp h
        obtain ⟨_, hnumber, hr⟩ := Option.bind_eq_some_iff.mp hn
        rw [Options.guard_eq_some] at hnumber
        obtain ⟨t, rfl, -, hread⟩ := read_digits_prefix htook
        have htag : SpellsTag t (n / 8) (n % 8) := by
          refine ⟨n, hread, ?_, hnumber.1⟩
          have hlt : n / 8 < 2 ^ 29 := hnumber.2
          omega
        split at hr
        · rename_i hend
          cases hr
          dsimp only at hend
          rw [hend] at htag
          exact ⟨[], .nil, .inr ⟨_, t, rfl, htag, rfl⟩⟩
        · obtain ⟨⟨field, rest'⟩, hvalue, hr⟩ := Option.bind_eq_some_iff.mp hr
          obtain ⟨⟨fields, stop, last⟩, hfields, hr⟩ := Option.bind_eq_some_iff.mp hr
          cases hr
          have hgroup : ∀ bs r, nested (read_fields fuel) depth bs = some r → Took bs r := by
            intro bs r hr
            cases depth with
            | zero => cases hr
            | succ depth => exact ih hr
          obtain ⟨read, rfl, hfield⟩ := read_value_took hgroup htag hvalue
          obtain ⟨read', hspells, ⟨hnone, heq⟩ | ⟨number, t', hsome, hend, heq⟩⟩ := ih hfields
          · refine ⟨t ++ read ++ read', .cons hfield hspells, .inl ⟨hnone, ?_⟩⟩
            rw [List.append_assoc, ← heq]
          · refine ⟨t ++ read ++ read', .cons hfield hspells, .inr ⟨number, t', hsome, hend, ?_⟩⟩
            rw [List.append_assoc, List.append_assoc, ← heq]

-- Only messages are parsed.
theorem spells_of_parse {depth : Nat} {bs : List UInt8} {fields : List UnknownField}
    (h : parse depth bs = some fields) : Spells bs fields := by
  unfold parse at h
  simp only [Option.bind_eq_bind, Option.pure_def] at h
  obtain ⟨⟨fields', stop, rest⟩, hread, h⟩ := Option.bind_eq_some_iff.mp h
  obtain ⟨_, hstop, h⟩ := Option.bind_eq_some_iff.mp h
  rw [Options.guard_eq_some] at hstop
  cases h
  obtain ⟨read, hspells, ⟨-, rfl⟩ | ⟨number, t, hsome, -, -⟩⟩ := read_fields_took _ hread
  · exact hspells
  · rw [hsome] at hstop
    cases hstop

end TTXla.Wire
