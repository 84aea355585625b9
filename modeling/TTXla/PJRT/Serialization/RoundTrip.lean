import TTXla.PJRT.Serialization

-- What the parser accepts, and that it accepts what is written.
namespace TTXla.PJRT.Serialization

open Bytes Excepts

-- A part of a serialized executable.
structure Section where
  offset : Nat
  size : Nat
deriving DecidableEq

namespace Section

variable (s : Section)

def start : Nat := HEADER_SIZE + s.offset

def stop : Nat := s.start + s.size

def bytes (b : List UInt8) : List UInt8 := slice b s.start s.size

def places : Finset Nat := Finset.Ico s.start s.stop

end Section

-- The section that the `i`-th pair of the header designates.
def designated (b : List UInt8) (i : Nat) : Section where
  offset := from_bytes (slice b (MAGIC_SIZE + 16 * i) 8)
  size := from_bytes (slice b (MAGIC_SIZE + 16 * i + 8) 8)

def ttir (b : List UInt8) : Section := designated b 0

def ttnn (b : List UInt8) : Section := designated b 1

def flatbuffer (b : List UInt8) : Section := designated b 2

structure WellFormed (b : List UInt8) : Prop where
  magic : slice b 0 MAGIC_SIZE = TTSERv00
  ttir_ttnn : (ttir b).stop ≤ (ttnn b).start
  ttnn_flatbuffer : (ttnn b).stop ≤ (flatbuffer b).start
  inside : (flatbuffer b).stop ≤ b.length

section Parsing

variable {b : List UInt8} {io : BytesIO} {p : Nat}

-- What is left to read of `b` is what stands from `p` on. A short read stops at the end, where
-- nothing is left.
structure At (b : List UInt8) (io : BytesIO) (p : Nat) : Prop where
  buffer : io.buffer = b
  left : b.drop io.pos = b.drop p

theorem At.read (h : At b io p) (n : Nat) :
    ∃ io', io.read n = (slice b p n, io') ∧ At b io' (p + n) := by
  refine ⟨(io.read n).2, ?_, ?_, ?_⟩
  · simp only [slice, BytesIO.read, h.buffer, h.left]
  · exact h.buffer
  · simp only [slice, BytesIO.read, h.buffer]
    rw [← List.drop_drop, h.left, List.length_take, ← List.drop_drop]
    cases Nat.le_total n (b.drop p).length with
    | inl hle => rw [Nat.min_eq_left hle]
    | inr hle =>
        rw [Nat.min_eq_right hle, List.drop_length, List.drop_of_length_le hle]

theorem At.seek (h : At b io p) (n : Nat) : At b (io.seek n) n := ⟨h.buffer, rfl⟩

-- The reads in terms of the bytes alone.
theorem parse_executable_eq (b : List UInt8) : parse_executable ⟨b, 0⟩ = do
    ensure (slice b 0 MAGIC_SIZE = TTSERv00)
      (.ValueError "Invalid magic number in extracted payload" (slice b 0 MAGIC_SIZE))
    ensure ((ttir b).offset ≤ (ttnn b).offset ∧ (ttnn b).offset ≤ (flatbuffer b).offset)
      (.AssertionError "Unexpected order of sections in body")
    ensure ((ttir b).offset + (ttir b).size ≤ (ttnn b).offset)
      (.AssertionError "TTIR and TTNN segments overlap")
    ensure ((ttnn b).offset + (ttnn b).size ≤ (flatbuffer b).offset)
      (.AssertionError "TTNN and flatbuffer segments overlap")
    ensure (((flatbuffer b).offset + (flatbuffer b).size : Int) ≤ (b.length : Int) - HEADER_SIZE)
      (.AssertionError "Flatbuffer segment exceeds executable size")
    let ttir_mlir ← decode ((ttir b).bytes b)
    let ttnn_mlir ← decode ((ttnn b).bytes b)
    return (ttir_mlir, ttnn_mlir, (flatbuffer b).bytes b) := by
  have h0 : At b ⟨b, 0⟩ 0 := ⟨rfl, rfl⟩
  obtain ⟨io1, hr1, h1⟩ := h0.read MAGIC_SIZE
  obtain ⟨io2, hr2, h2⟩ := h1.read 8
  obtain ⟨io3, hr3, h3⟩ := h2.read 8
  obtain ⟨io4, hr4, h4⟩ := h3.read 8
  obtain ⟨io5, hr5, h5⟩ := h4.read 8
  obtain ⟨io6, hr6, h6⟩ := h5.read 8
  obtain ⟨io7, hr7, h7⟩ := h6.read 8
  obtain ⟨io8, hr8, h8⟩ := (h7.seek (ttir b).start).read (ttir b).size
  obtain ⟨io9, hr9, h9⟩ := (h8.seek (ttnn b).start).read (ttnn b).size
  obtain ⟨io10, hr10, -⟩ := (h9.seek (flatbuffer b).start).read (flatbuffer b).size
  simp only [ttir, ttnn, flatbuffer, designated, Section.start, MAGIC_SIZE, Nat.mul_zero,
    Nat.add_zero, Nat.zero_add, Nat.reduceAdd, Nat.reduceMul]
    at hr1 hr2 hr3 hr4 hr5 hr6 hr7 hr8 hr9 hr10
  simp only [parse_executable, ttir, ttnn, flatbuffer, designated, Section.bytes, Section.start,
    MAGIC_SIZE, Nat.mul_zero, Nat.add_zero, Nat.reduceAdd, Nat.reduceMul, hr1, hr2,
    hr3, hr4, hr5, hr6, hr7, hr8, hr9, hr10, h1.buffer]
  rfl

theorem decode_eq_ok {bytes : List UInt8} {s : String} :
    decode bytes = .ok s ↔ bytes = utf8 s := by
  unfold decode String.fromUTF8? utf8
  constructor
  · intro h
    split at h
    · rename_i s' hs
      cases h
      split at hs
      · cases hs
        rfl
      · cases hs
    · cases h
  · rintro rfl
    have hvalid : (⟨s.toByteArray.data.toList.toArray⟩ : ByteArray).IsValidUTF8 := by
      rw [Array.toArray_toList]
      exact s.isValidUTF8
    rw [dif_pos hvalid]
    simp only [Array.toArray_toList, Except.ok.injEq]
    rfl

theorem parse_executable_ok_iff {b flatbuffer_binary : List UInt8} {ttir_mlir ttnn_mlir : String} :
    parse_executable ⟨b, 0⟩ = .ok (ttir_mlir, ttnn_mlir, flatbuffer_binary) ↔
      WellFormed b ∧ (ttir b).bytes b = utf8 ttir_mlir ∧ (ttnn b).bytes b = utf8 ttnn_mlir ∧
        (flatbuffer b).bytes b = flatbuffer_binary := by
  simp only [parse_executable_eq, bind_eq_ok, ensure_eq_ok, decode_eq_ok, pure, Except.pure,
    Except.ok.injEq, Prod.mk.injEq]
  constructor
  · rintro ⟨-, hmagic, -, -, -, hfirst, -, hsecond, -, hinside, _, hx, _, hy, rfl, rfl, hz⟩
    refine ⟨⟨hmagic, ?_, ?_, ?_⟩, hx, hy, hz⟩
    · simp only [Section.stop, Section.start]
      omega
    · simp only [Section.stop, Section.start]
      omega
    · simp only [Section.stop, Section.start]
      omega
  · rintro ⟨hformed, hx, hy, hz⟩
    have hfirst := hformed.ttir_ttnn
    have hsecond := hformed.ttnn_flatbuffer
    have hinside := hformed.inside
    simp only [Section.stop, Section.start] at hfirst hsecond hinside
    refine ⟨(), hformed.magic, (), ⟨?_, ?_⟩, (), ?_, (), ?_, (), ?_, _, hx, _, hy, rfl, rfl, hz⟩ <;>
      omega

end Parsing

section Writing

theorem writeRaw_fill (written src : List UInt8) (n : Nat) :
    writeRaw (written ++ List.replicate n 0) written.length src =
      if src.length ≤ n then
        some (written ++ src ++ List.replicate (n - src.length) 0, (written ++ src).length)
      else none := by
  unfold writeRaw
  rw [List.length_append, List.length_replicate]
  by_cases hle : src.length ≤ n
  · rw [if_pos hle, if_pos (by omega), List.take_left, List.drop_length_add_append,
      List.drop_replicate, List.length_append]
  · rw [if_neg hle, if_neg (by omega)]

-- The sizes of the payload's parts fit a machine word together.
def ExecutableImage.Fits (image : ExecutableImage) : Prop :=
  HEADER_SIZE + (utf8 image.ttir_mlir).length + (utf8 image.ttnn_mlir).length
    + image.flatbuffer_data.length < 2 ^ 64

def ExecutableImage.header (image : ExecutableImage) : SerializationHeader :=
  .create (utf8 image.ttir_mlir) (utf8 image.ttnn_mlir) image.flatbuffer_data

variable (image : ExecutableImage)

-- The numbers of the header, in its order.
def SerializationHeader.words (header : SerializationHeader) : List Nat :=
  [header.ttir_offset.toNat, header.ttir_size.toNat, header.ttnn_offset.toNat,
    header.ttnn_size.toNat, header.fb_offset.toNat, header.fb_size.toNat]

theorem header_bytes : image.header.bytes = TTSERv00 ++ image.header.words.flatMap (to_bytes 8) := by
  simp only [SerializationHeader.bytes, SerializationHeader.words, List.flatMap_cons,
    List.flatMap_nil, List.append_nil, List.append_assoc]
  rfl

theorem length_header_bytes : image.header.bytes.length = HEADER_SIZE := by
  simp only [header_bytes, SerializationHeader.words, List.flatMap_cons, List.flatMap_nil,
    List.length_append, length_to_bytes]
  rfl

theorem getPayloadSize_toNat : image.header.getPayloadSize.toNat =
    (HEADER_SIZE + (utf8 image.ttir_mlir).length + (utf8 image.ttnn_mlir).length
      + image.flatbuffer_data.length) % 2 ^ 64 := by
  simp only [ExecutableImage.header, SerializationHeader.create,
    SerializationHeader.getPayloadSize, SerializationHeader.getHeaderSize, UInt64.toNat_add,
    UInt64.toNat_ofNat', HEADER_SIZE, MAGIC_SIZE]
  have h56 : (56 : UInt64).toNat = 56 := rfl
  rw [h56]
  omega

theorem SerializedExecutableInstance_eq [Decidable image.Fits] :
    SerializedExecutableInstance image =
      if image.Fits then
        some (image.header.bytes ++ utf8 image.ttir_mlir ++ utf8 image.ttnn_mlir
          ++ image.flatbuffer_data)
      else none := by
  have hsize := getPayloadSize_toNat image
  have hlength := length_header_bytes image
  have hfirst := writeRaw_fill [] image.header.bytes image.header.getPayloadSize.toNat
  have hsecond := writeRaw_fill image.header.bytes (utf8 image.ttir_mlir)
  have hthird := writeRaw_fill (image.header.bytes ++ utf8 image.ttir_mlir) (utf8 image.ttnn_mlir)
  have hfourth := writeRaw_fill (image.header.bytes ++ utf8 image.ttir_mlir ++ utf8 image.ttnn_mlir)
    image.flatbuffer_data
  simp only [List.nil_append, List.length_nil] at hfirst
  change (writeRaw (List.replicate image.header.getPayloadSize.toNat 0) 0 image.header.bytes >>= _)
    = _
  by_cases hfits : image.Fits
  · rw [if_pos hfits]
    unfold ExecutableImage.Fits at hfits
    rw [Nat.mod_eq_of_lt hfits] at hsize
    rw [hfirst, if_pos (by omega)]
    dsimp only [bind, Option.bind]
    rw [hsecond, if_pos (by omega)]
    dsimp only
    rw [hthird, if_pos (by omega)]
    dsimp only
    rw [hfourth, if_pos (by omega)]
    dsimp only
    have hrest : image.header.getPayloadSize.toNat - image.header.bytes.length
        - (utf8 image.ttir_mlir).length - (utf8 image.ttnn_mlir).length
        - image.flatbuffer_data.length = 0 := by omega
    rw [hrest, List.replicate_zero, List.append_nil, if_pos rfl]
  · -- the size wraps around, and some copy does not fit
    rw [if_neg hfits]
    unfold ExecutableImage.Fits at hfits
    have hlt := Nat.mod_lt (HEADER_SIZE + (utf8 image.ttir_mlir).length
      + (utf8 image.ttnn_mlir).length + image.flatbuffer_data.length) (Nat.two_pow_pos 64)
    rw [← hsize] at hlt
    by_cases h1 : image.header.bytes.length ≤ image.header.getPayloadSize.toNat
    case neg =>
      rw [hfirst, if_neg h1]
      rfl
    rw [hfirst, if_pos h1]
    dsimp only [bind, Option.bind]
    by_cases h2 : (utf8 image.ttir_mlir).length ≤
        image.header.getPayloadSize.toNat - image.header.bytes.length
    case neg => rw [hsecond, if_neg h2]
    rw [hsecond, if_pos h2]
    dsimp only
    by_cases h3 : (utf8 image.ttnn_mlir).length ≤ image.header.getPayloadSize.toNat
        - image.header.bytes.length - (utf8 image.ttir_mlir).length
    case neg => rw [hthird, if_neg h3]
    rw [hthird, if_pos h3]
    dsimp only
    rw [hfourth, if_neg (by omega)]

theorem length_payload : (image.header.bytes ++ utf8 image.ttir_mlir ++ utf8 image.ttnn_mlir
    ++ image.flatbuffer_data).length = HEADER_SIZE + (utf8 image.ttir_mlir).length
      + (utf8 image.ttnn_mlir).length + image.flatbuffer_data.length := by
  simp only [List.length_append, length_header_bytes]

-- No number of the header wraps around.
theorem header_words (hfits : image.Fits) : image.header.words =
    [0, (utf8 image.ttir_mlir).length, (utf8 image.ttir_mlir).length,
      (utf8 image.ttnn_mlir).length, (utf8 image.ttir_mlir).length + (utf8 image.ttnn_mlir).length,
      image.flatbuffer_data.length] := by
  unfold ExecutableImage.Fits at hfits
  have h0 : (0 : UInt64).toNat = 0 := rfl
  simp only [SerializationHeader.words, ExecutableImage.header, SerializationHeader.create,
    UInt64.toNat_add, UInt64.toNat_ofNat', h0, List.cons.injEq, and_true, true_and]
  refine ⟨?_, ?_, ?_, ?_, ?_⟩ <;> omega

theorem designated_payload (rest : List UInt8) {i offset size : Nat}
    (ho : image.header.words[2 * i]? = some offset)
    (hs : image.header.words[2 * i + 1]? = some size) (holt : offset < 2 ^ 64)
    (hslt : size < 2 ^ 64) : designated (image.header.bytes ++ rest) i = ⟨offset, size⟩ := by
  have hpow : (256 : Nat) ^ 8 = 2 ^ 64 := rfl
  simp only [designated, header_bytes, Section.mk.injEq]
  constructor
  · rw [slice_words 8 rest (i := 2 * i) ?_ ho, from_bytes_to_bytes, hpow]
    · exact Nat.mod_eq_of_lt holt
    · change 8 + 8 * (2 * i) = 8 + 16 * i
      omega
  · rw [slice_words 8 rest (i := 2 * i + 1) ?_ hs, from_bytes_to_bytes, hpow]
    · exact Nat.mod_eq_of_lt hslt
    · change 8 + 8 * (2 * i + 1) = 8 + 16 * i + 8
      omega

-- The parser reads what is written.
theorem parse_executable_written (hfits : image.Fits) :
    parse_executable ⟨image.header.bytes ++ utf8 image.ttir_mlir ++ utf8 image.ttnn_mlir
      ++ image.flatbuffer_data, 0⟩ =
        .ok (image.ttir_mlir, image.ttnn_mlir, image.flatbuffer_data) := by
  have hwords := header_words image hfits
  have hheader := length_header_bytes image
  have hdesignated := @designated_payload image
    (utf8 image.ttir_mlir ++ utf8 image.ttnn_mlir ++ image.flatbuffer_data)
  unfold ExecutableImage.Fits at hfits
  have h0 := hdesignated (i := 0) (by rw [hwords]; rfl) (by rw [hwords]; rfl) (by omega) (by omega)
  have h1 := hdesignated (i := 1) (by rw [hwords]; rfl) (by rw [hwords]; rfl) (by omega) (by omega)
  have h2 := hdesignated (i := 2) (by rw [hwords]; rfl) (by rw [hwords]; rfl) (by omega) (by omega)
  simp only [← List.append_assoc] at h0 h1 h2
  rw [parse_executable_ok_iff]
  refine ⟨⟨?_, ?_, ?_, ?_⟩, ?_, ?_, ?_⟩
  · rw [header_bytes]
    rfl
  · rw [ttir, ttnn, h0, h1]
    simp only [Section.stop, Section.start]
    omega
  · rw [ttnn, flatbuffer, h1, h2]
    simp only [Section.stop, Section.start]
    omega
  · rw [flatbuffer, h2, length_payload]
    simp only [Section.stop, Section.start]
    omega
  · rw [ttir, h0, Section.bytes, List.append_assoc, List.append_assoc, ← List.append_assoc]
    exact slice_append _ _ _ (by rw [hheader]; rfl) rfl
  · rw [ttnn, h1, Section.bytes, Section.start]
    exact slice_append _ _ _ (by rw [List.length_append, hheader]) rfl
  · rw [flatbuffer, h2, Section.bytes, Section.start, ← List.append_nil (_ ++ _)]
    refine slice_append _ _ _ ?_ rfl
    rw [List.length_append, List.length_append, hheader, Nat.add_assoc]

end Writing

-- The round trip, and what the sections of any accepted bytes are.
theorem serialization_round_trip :
    (∀ image b, SerializedExecutableInstance image = some b →
      parse_executable ⟨b, 0⟩ =
        .ok (image.ttir_mlir, image.ttnn_mlir, image.flatbuffer_data)) ∧
    (∀ image, (SerializedExecutableInstance image).isSome = true ↔ image.Fits) ∧
    ∀ b ttir_mlir ttnn_mlir flatbuffer_binary,
      parse_executable ⟨b, 0⟩ = .ok (ttir_mlir, ttnn_mlir, flatbuffer_binary) →
        (ttir b).bytes b = utf8 ttir_mlir ∧ (ttnn b).bytes b = utf8 ttnn_mlir ∧
          (flatbuffer b).bytes b = flatbuffer_binary ∧
          (∀ s ∈ [ttir b, ttnn b, flatbuffer b],
            HEADER_SIZE ≤ s.start ∧ s.stop ≤ b.length ∧ (s.bytes b).length = s.size) ∧
          [ttir b, ttnn b, flatbuffer b].Pairwise fun s s' =>
            s.stop ≤ s'.start ∧ Disjoint s.places s'.places := by
  classical
  refine ⟨?_, ?_, ?_⟩
  · intro image b hb
    rw [SerializedExecutableInstance_eq] at hb
    split at hb
    · rename_i hfits
      cases hb
      exact parse_executable_written image hfits
    · cases hb
  · intro image
    rw [SerializedExecutableInstance_eq]
    by_cases hfits : image.Fits <;> simp [hfits]
  · intro b ttir_mlir ttnn_mlir flatbuffer_binary hparse
    obtain ⟨hformed, hx, hy, hz⟩ := parse_executable_ok_iff.mp hparse
    have hfirst := hformed.ttir_ttnn
    have hsecond := hformed.ttnn_flatbuffer
    have hinside := hformed.inside
    have hstop : ∀ s : Section, s.start ≤ s.stop := fun s => Nat.le_add_right _ _
    have h1 := hstop (ttnn b)
    have h2 := hstop (flatbuffer b)
    have hstops : ∀ s ∈ [ttir b, ttnn b, flatbuffer b], s.stop ≤ b.length := by
      intro s hs
      simp only [List.mem_cons, List.not_mem_nil, or_false] at hs
      obtain rfl | rfl | rfl := hs <;> omega
    have hdisjoint : ∀ {s s' : Section}, s.stop ≤ s'.start →
        s.stop ≤ s'.start ∧ Disjoint s.places s'.places := fun hle =>
      ⟨hle, Finset.Ico_disjoint_Ico_consecutive _ _ _ |>.mono_right
        (Finset.Ico_subset_Ico_left hle)⟩
    refine ⟨hx, hy, hz, fun s hs => ⟨Nat.le_add_right _ _, hstops s hs, ?_⟩, ?_⟩
    · exact length_slice_of_le _ _ _ (hstops s hs)
    · refine List.pairwise_cons.mpr ⟨?_, List.pairwise_pair.mpr (hdisjoint hsecond)⟩
      intro s hs
      simp only [List.mem_cons, List.not_mem_nil, or_false] at hs
      obtain rfl | rfl := hs
      · exact hdisjoint hfirst
      · exact hdisjoint (by omega)

theorem module_round_trip : ∃ b,
    SerializedExecutableInstance ⟨"module @main", "", .TTNNFlatbuffer, [1, 2]⟩ = some b ∧
      parse_executable ⟨b, 0⟩ = .ok ("module @main", "", [1, 2]) := by
  have hfits : (⟨"module @main", "", .TTNNFlatbuffer, [1, 2]⟩ : ExecutableImage).Fits := by
    unfold ExecutableImage.Fits
    decide +kernel
  obtain ⟨b, hb⟩ := Option.isSome_iff_exists.mp (serialization_round_trip.2.1 _ |>.mpr hfits)
  exact ⟨b, hb, serialization_round_trip.1 _ b hb⟩

end TTXla.PJRT.Serialization
