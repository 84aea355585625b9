import Mathlib.Data.List.GetD
import TTXla.VllmTT.PoolingStates.Agreement
import TTXla.VllmTT.SplitExecution

-- The attention mask of a pooling step.
namespace TTXla.VllmTT.Pooling

variable {T : Type}

-- Which entries are 0, the others being -inf. There is one entry for all heads.
abbrev Mask := Nat → Nat → Nat → Bool

-- `attn_mask[batch_idx, :, start:end, start:end] = where(segment_mask, 0, -inf)`. The slice
-- stops at the width of the mask; it must have the size of the segment, unless that is one
-- entry, which is broadcast.
def write_segment (num_query_tokens batch_size : Nat) (is_decoder_only : Bool) (mask : Mask)
    (batch_idx start seg_len : Nat) : Option Mask := do
  let stop := start + seg_len
  guard (batch_idx < batch_size)
  guard (stop ≤ num_query_tokens ∨ seg_len = 1)
  return fun b i j =>
    if b = batch_idx ∧ start ≤ i ∧ i < min stop num_query_tokens ∧ start ≤ j ∧
        j < min stop num_query_tokens then !is_decoder_only || decide (j ≤ i)
    else mask b i j

-- The loop over the sequence lengths. With several rows every segment starts its own row.
def write_segments (num_query_tokens batch_size : Nat) (is_decoder_only : Bool) :
    List Nat → Nat → Nat → Mask → Option Mask
  | [], _, _, mask => some mask
  | seg_len :: lens, valid_pos, batch_idx, mask =>
      if seg_len = 0 then write_segments num_query_tokens batch_size is_decoder_only lens
        valid_pos batch_idx mask
      else do
        let mask ← write_segment num_query_tokens batch_size is_decoder_only mask batch_idx
          valid_pos seg_len
        if 1 < batch_size then
          write_segments num_query_tokens batch_size is_decoder_only lens 0 (batch_idx + 1) mask
        else
          write_segments num_query_tokens batch_size is_decoder_only lens (valid_pos + seg_len)
            batch_idx mask

def generate_attn_mask (context_lens : List Nat) (num_query_tokens batch_size : Nat)
    (is_decoder_only : Bool) : Option Mask :=
  write_segments num_query_tokens batch_size is_decoder_only context_lens 0 0
    fun _ _ _ => false

-- `seq_lens_np.fill(0)`, and the lengths of the rows of the batch, counted from 0.
def fill_seq_lens (b : InputBatch T) (counts : List Nat) (_seq_lens_np : Nat → Nat) : Nat → Nat :=
  let seq_lens_np : Nat → Nat := fun _ => 0
  fun i => if i < counts.length then b.num_computed_tokens_cpu i + counts.getD i 0
    else seq_lens_np i

-- The rows that make the batch divisible by the devices, with data parallelism.
def num_additional_inputs (num_devices : Option Nat) (num_rows : Nat) : Nat :=
  match num_devices with
  | none => 0
  | some num_devices =>
      if 0 < num_rows % num_devices then num_devices - num_rows % num_devices else 0

def attn_mask_batch_size (cfg : PoolingConfig) (num_devices : Option Nat)
    (inp : PoolingInputs) : Nat :=
  if cfg.batch_size = 1 then 1
  else inp.num_scheduled_tokens_per_req.length + num_additional_inputs num_devices inp.num_rows

-- Whether the step needs a mask of its own.
def needs_mask (cfg : PoolingConfig) (is_decoder_only : Bool) : Prop :=
  (cfg.batch_size = 1 ∧ 1 < cfg.max_num_reqs) ∨ ¬is_decoder_only

instance (cfg : PoolingConfig) (is_decoder_only : Bool) :
    Decidable (needs_mask cfg is_decoder_only) :=
  inferInstanceAs (Decidable (_ ∨ _))

-- The part of `_prepare_inputs` that builds the mask.
def attn_mask (cfg : PoolingConfig) (is_decoder_only : Bool) (num_devices : Option Nat)
    (b : InputBatch T) (so : SchedulerOutput) (start_index : Nat) (seq_lens_np : Nat → Nat) :
    Option (Option Mask) := do
  let inp ← prepare_inputs cfg b so start_index
  let all_counts ← Runner.scheduled_counts b so start_index
  let counts := inp.num_scheduled_tokens_per_req
  let seq_lens_np := fill_seq_lens b counts seq_lens_np
  let num_lens := if cfg.use_max_model_len all_counts then counts.length
    else cfg.num_reqs_most_model_len.getD 0
  -- a slice of a buffer of `max_num_tokens` entries
  let seq_lens := (List.range (min num_lens cfg.max_num_tokens)).map seq_lens_np
  if needs_mask cfg is_decoder_only then
    (generate_attn_mask seq_lens inp.padded_len (attn_mask_batch_size cfg num_devices inp)
      is_decoder_only).map some
  else return none

-- Segments of the given lengths, one after the other or one a row: whether two positions of a
-- row lie in the same one.
def Segments (rowwise : Bool) : List Nat → Nat → Nat → Nat → Nat → Nat → Prop
  | [], _, _, _, _, _ => False
  | n :: ns, pos, idx, b, i, j =>
      (b = idx ∧ pos ≤ i ∧ i < pos + n ∧ pos ≤ j ∧ j < pos + n) ∨
        Segments rowwise ns (if rowwise then 0 else pos + n) (if rowwise then idx + 1 else idx)
          b i j

-- Every segment has its row, and ends in it unless it is one entry.
def Placed (rowwise : Bool) (width rows : Nat) : List Nat → Nat → Nat → Prop
  | [], _, _ => True
  | n :: ns, pos, idx => idx < rows ∧ (pos + n ≤ width ∨ n = 1) ∧
      Placed rowwise width rows ns (if rowwise then 0 else pos + n)
        (if rowwise then idx + 1 else idx)

section Segments

variable {rowwise : Bool} {ns : List Nat} {pos idx b i j : Nat}

-- Later segments are to the right, or below.
theorem Segments.after (h : Segments rowwise ns pos idx b i j) :
    if rowwise then idx ≤ b else pos ≤ j := by
  induction ns generalizing pos idx with
  | nil => cases h
  | cons n ns ih =>
      rcases h with ⟨rfl, -, -, hj, -⟩ | h
      · split
        · exact Nat.le_refl _
        · exact hj
      · have hafter := ih h
        cases rowwise with
        | true =>
            simp only [ite_true] at hafter ⊢
            omega
        | false =>
            simp only [Bool.false_eq_true, ite_false] at hafter ⊢
            omega

-- The positions of the first segment belong to no later one.
theorem Segments.not_later {n : Nat} (hj : b = idx ∧ j < pos + n) :
    ¬Segments rowwise ns (if rowwise then 0 else pos + n) (if rowwise then idx + 1 else idx)
      b i j := by
  intro h
  have hafter := h.after
  cases rowwise with
  | true =>
      simp only [ite_true] at hafter
      omega
  | false =>
      simp only [Bool.false_eq_true, ite_false] at hafter
      omega

-- Segments that are at least as long as others, and cover the same positions, are these.
theorem eq_of_segments {width rows : Nat} {s : List Nat}
    (hle : List.Forall₂ (fun n m => 0 < n ∧ n ≤ m) ns s)
    (hplaced : Placed rowwise width rows s pos idx)
    (hsame : ∀ b i j, b < rows → i < width → j < width → j ≤ i →
      (Segments rowwise s pos idx b i j ↔ Segments rowwise ns pos idx b i j)) : s = ns := by
  induction hle generalizing pos idx with
  | nil => rfl
  | @cons n m ns s hnm hle ih =>
      obtain ⟨hrow, hend, hplaced⟩ := hplaced
      have hnm' : m = n := by
        by_contra hne
        -- the first position behind the shorter segment
        have hiff := hsame idx (pos + n) pos hrow (by omega) (by omega) (by omega)
        rcases hiff.mp (.inl ⟨rfl, by omega, by omega, by omega, by omega⟩) with h | h
        · omega
        · exact Segments.not_later (n := n) ⟨rfl, by omega⟩ h
      subst hnm'
      rw [ih hplaced fun b i j hb hi hj hji => ?_]
      have hiff := hsame b i j hb hi hj hji
      constructor
      · intro h
        rcases hiff.mp (.inr h) with hhead | htail
        · exact absurd h (Segments.not_later ⟨hhead.1, hhead.2.2.2.2⟩)
        · exact htail
      · intro h
        rcases hiff.mpr (.inr h) with hhead | htail
        · exact absurd h (Segments.not_later ⟨hhead.1, hhead.2.2.2.2⟩)
        · exact htail

end Segments

section Loop

variable {width rows : Nat} {dec : Bool}

theorem write_segment_eq_some {mask mask' : Mask} {idx pos n : Nat}
    (h : write_segment width rows dec mask idx pos n = some mask') :
    idx < rows ∧ (pos + n ≤ width ∨ n = 1) ∧ ∀ b i j, i < width → j < width →
      mask' b i j = if b = idx ∧ pos ≤ i ∧ i < pos + n ∧ pos ≤ j ∧ j < pos + n
        then !dec || decide (j ≤ i) else mask b i j := by
  simp only [write_segment, Option.bind_eq_bind, Option.bind_eq_some_iff,
    Options.guard_eq_some] at h
  obtain ⟨-, hrow, -, hend, h⟩ := h
  cases h
  refine ⟨hrow, hend, fun b i j hi hj => ?_⟩
  simp only [Nat.lt_min, hi, hj, and_true]

theorem write_segments_zeros (k : Nat) (pos idx : Nat) (mask : Mask) :
    write_segments width rows dec (List.replicate k 0) pos idx mask = some mask := by
  induction k with
  | zero => rfl
  | succ k ih =>
      rw [List.replicate_succ, write_segments, if_pos rfl]
      exact ih

-- The loop writes the segments of positive length; the zeros behind them change nothing.
theorem write_segments_eq_some {lens : List Nat} (k : Nat) (hpos : ∀ n ∈ lens, 0 < n)
    {pos idx : Nat} {mask mask' : Mask}
    (h : write_segments width rows dec (lens ++ List.replicate k 0) pos idx mask = some mask') :
    Placed (decide (1 < rows)) width rows lens pos idx ∧ ∀ b i j, i < width → j < width →
      (mask' b i j = true ↔
        (Segments (decide (1 < rows)) lens pos idx b i j ∧ (dec = true → j ≤ i)) ∨
        (¬Segments (decide (1 < rows)) lens pos idx b i j ∧ mask b i j = true)) := by
  induction lens generalizing pos idx mask with
  | nil =>
      rw [List.nil_append, write_segments_zeros] at h
      cases h
      exact ⟨trivial, fun b i j _ _ => by simp [Segments]⟩
  | cons n lens ih =>
      have hn := hpos n List.mem_cons_self
      have hlens : ∀ n ∈ lens, 0 < n := fun m hm => hpos m (List.mem_cons_of_mem _ hm)
      rw [List.cons_append, write_segments, if_neg (by omega)] at h
      obtain ⟨mid, hmid, hrest⟩ := Option.bind_eq_some_iff.mp h
      obtain ⟨hrow, hend, hwritten⟩ := write_segment_eq_some hmid
      have hih : Placed (decide (1 < rows)) width rows lens
            (if decide (1 < rows) then 0 else pos + n) (if decide (1 < rows) then idx + 1 else idx) ∧
          ∀ b i j, i < width → j < width → (mask' b i j = true ↔
            (Segments (decide (1 < rows)) lens (if decide (1 < rows) then 0 else pos + n)
              (if decide (1 < rows) then idx + 1 else idx) b i j ∧ (dec = true → j ≤ i)) ∨
            (¬Segments (decide (1 < rows)) lens (if decide (1 < rows) then 0 else pos + n)
              (if decide (1 < rows) then idx + 1 else idx) b i j ∧ mid b i j = true)) := by
        by_cases hrows : 1 < rows
        · simp only [hrows, decide_true, ite_true] at hrest ⊢
          simpa only [hrows, decide_true] using ih hlens hrest
        · simp only [hrows, decide_false, ite_false, Bool.false_eq_true] at hrest ⊢
          simpa only [hrows, decide_false] using ih hlens hrest
      refine ⟨⟨hrow, hend, hih.1⟩, fun b i j hi hj => ?_⟩
      rw [hih.2 b i j hi hj, hwritten b i j hi hj]
      by_cases hhead : b = idx ∧ pos ≤ i ∧ i < pos + n ∧ pos ≤ j ∧ j < pos + n
      · have hlater : ¬Segments (decide (1 < rows)) lens (if decide (1 < rows) then 0 else pos + n)
            (if decide (1 < rows) then idx + 1 else idx) b i j :=
          Segments.not_later ⟨hhead.1, hhead.2.2.2.2⟩
        have hwhole : Segments (decide (1 < rows)) (n :: lens) pos idx b i j := .inl hhead
        rw [if_pos hhead]
        simp only [hlater, hwhole, false_and, true_and, not_true, not_false_eq_true, false_or,
          or_false]
        cases dec with
        | true => simp
        | false => simp
      · rw [if_neg hhead]
        simp only [Segments, hhead, false_or]

-- Segments that are placed are written.
theorem write_segments_isSome (dec : Bool) {lens : List Nat} (k : Nat) (hpos : ∀ n ∈ lens, 0 < n)
    {pos idx : Nat} (mask : Mask) (h : Placed (decide (1 < rows)) width rows lens pos idx) :
    ∃ mask', write_segments width rows dec (lens ++ List.replicate k 0) pos idx mask =
      some mask' := by
  induction lens generalizing pos idx mask with
  | nil => exact ⟨mask, write_segments_zeros k pos idx mask⟩
  | cons n lens ih =>
      obtain ⟨hrow, hend, hrest⟩ := h
      have hn := hpos n List.mem_cons_self
      have hlens : ∀ n ∈ lens, 0 < n := fun m hm => hpos m (List.mem_cons_of_mem _ hm)
      obtain ⟨mid, hmid⟩ : ∃ mid, write_segment width rows dec mask idx pos n = some mid := by
        unfold write_segment
        simp only [hrow, hend, guard_true, Option.bind_eq_bind, Option.pure_def,
          Option.bind_some]
        exact ⟨_, rfl⟩
      rw [List.cons_append, write_segments, if_neg (by omega)]
      by_cases hrows : 1 < rows
      · simp only [hrows, decide_true, ite_true] at hrest ⊢
        obtain ⟨mask', hmask'⟩ := ih hlens mid (by simpa only [hrows, decide_true] using hrest)
        exact ⟨mask', Option.bind_eq_some_iff.mpr ⟨mid, hmid, hmask'⟩⟩
      · simp only [hrows, decide_false, ite_false, Bool.false_eq_true] at hrest ⊢
        obtain ⟨mask', hmask'⟩ := ih hlens mid (by simpa only [hrows, decide_false] using hrest)
        exact ⟨mask', Option.bind_eq_some_iff.mpr ⟨mid, hmid, hmask'⟩⟩

end Loop

-- The request `r` has a token in row `b` and column `t` of the input.
def IsToken (cfg : PoolingConfig) (counts : List Nat) (r b t : Nat) : Prop :=
  if cfg.batch_size = 1 then b = 0 ∧ ∃ k, (token_slots counts)[t]? = some (r, k)
  else b = r ∧ t < counts.getD r 0

-- The mask lets a token attend to the tokens of its own request, and to no earlier one than
-- itself if the model is causal; every token attends to some.
structure Separates (cfg : PoolingConfig) (is_decoder_only : Bool) (counts : List Nat)
    (width rows : Nat) (mask : Mask) : Prop where
  allowed : ∀ b i j, b < rows → i < width → j < width → (mask b i j = true ↔
    (∃ r, IsToken cfg counts r b i ∧ IsToken cfg counts r b j) ∧ (is_decoder_only → j ≤ i))
  attends : ∀ r b i, IsToken cfg counts r b i → b < rows ∧ i < width ∧
    ∃ j < width, mask b i j = true

-- The step builds the right mask, if it needs one, whatever the buffer of the sequence lengths
-- held before.
def MasksRight (cfg : PoolingConfig) (is_decoder_only : Bool) (num_devices : Option Nat)
    (b : InputBatch T) (so : SchedulerOutput) (start_index : Nat) (inp : PoolingInputs) : Prop :=
  ∃ result, ∀ seq_lens_np, attn_mask cfg is_decoder_only num_devices b so start_index
    seq_lens_np = some result ∧ ∀ mask ∈ result, Separates cfg is_decoder_only
      inp.num_scheduled_tokens_per_req inp.padded_len (attn_mask_batch_size cfg num_devices inp)
      mask

section Tokens

-- The slots of the requests from `k` on.
theorem mem_slots_ge {counts : List Nat} {k r x t : Nat}
    (h : ((counts.zipIdx k).flatMap fun (n, i) => (List.range n).map fun j => (i, j))[t]? =
      some (r, x)) : k ≤ r := by
  have hmem := List.mem_of_getElem? h
  obtain ⟨⟨n, i⟩, hi, hx⟩ := List.mem_flatMap.mp hmem
  obtain ⟨y, -, heq⟩ := List.mem_map.mp hx
  cases heq
  exact List.le_snd_of_mem_zipIdx hi

theorem slots_same_iff (counts : List Nat) (k pos idx i j : Nat) :
    (∃ r x y, pos ≤ i ∧ pos ≤ j ∧
      ((counts.zipIdx k).flatMap fun (n, i) => (List.range n).map fun j => (i, j))[i - pos]? =
        some (r, x) ∧
      ((counts.zipIdx k).flatMap fun (n, i) => (List.range n).map fun j => (i, j))[j - pos]? =
        some (r, y)) ↔ Segments false counts pos idx idx i j := by
  induction counts generalizing k pos with
  | nil => simp [Segments]
  | cons n counts ih =>
      have hslot : ∀ t, pos ≤ t →
          (((n :: counts).zipIdx k).flatMap fun (n, i) =>
            (List.range n).map fun j => (i, j))[t - pos]? =
          if t < pos + n then some (k, t - pos) else
            ((counts.zipIdx (k + 1)).flatMap fun (n, i) =>
              (List.range n).map fun j => (i, j))[t - (pos + n)]? := by
        intro t ht
        rw [List.zipIdx_cons, List.flatMap_cons, List.getElem?_append]
        simp only [List.length_map, List.length_range]
        by_cases hlt : t < pos + n
        · rw [if_pos (by omega), if_pos hlt, List.getElem?_map,
            List.getElem?_range (by omega)]
          rfl
        · rw [if_neg (by omega), if_neg hlt, Nat.sub_sub]
      simp only [Segments, Bool.false_eq_true, ite_false]
      rw [← ih (k + 1) (pos + n)]
      constructor
      · rintro ⟨r, x, y, hi, hj, hx, hy⟩
        rw [hslot i hi] at hx
        rw [hslot j hj] at hy
        split at hx
        · rename_i hi'
          cases hx
          split at hy
          · rename_i hj'
            exact .inl ⟨trivial, hi, hi', hj, hj'⟩
          · -- a later request is not the first one
            have := mem_slots_ge hy
            omega
        · rename_i hi'
          split at hy
          · cases hy
            have := mem_slots_ge hx
            omega
          · rename_i hj'
            exact .inr ⟨r, x, y, by omega, by omega, hx, hy⟩
      · rintro (⟨-, hi, hi', hj, hj'⟩ | ⟨r, x, y, hi, hj, hx, hy⟩)
        · refine ⟨k, i - pos, j - pos, hi, hj, ?_, ?_⟩
          · rw [hslot i hi, if_pos hi']
          · rw [hslot j hj, if_pos hj']
        · refine ⟨r, x, y, by omega, by omega, ?_, ?_⟩
          · rw [hslot i (by omega), if_neg (by omega)]
            exact hx
          · rw [hslot j (by omega), if_neg (by omega)]
            exact hy

theorem rows_same_iff (counts : List Nat) (idx b i j : Nat) :
    (idx ≤ b ∧ i < counts.getD (b - idx) 0 ∧ j < counts.getD (b - idx) 0) ↔
      Segments true counts 0 idx b i j := by
  induction counts generalizing idx with
  | nil => simp [Segments]
  | cons n counts ih =>
      simp only [Segments, ite_true]
      rw [← ih (idx + 1)]
      by_cases hb : b = idx
      · subst hb
        simp
      · by_cases hlt : idx < b
        · rw [show b - idx = (b - (idx + 1)) + 1 by omega, List.getD_cons_succ]
          simp only [hb, false_and, false_or]
          omega
        · simp only [hb, false_and, false_or]
          omega

end Tokens

section Prepared

variable {cfg : PoolingConfig} {b : InputBatch T} {so : SchedulerOutput} {start_index : Nat}
  {inp : PoolingInputs}

-- The padded length covers the tokens.
theorem prepare_inputs_padded (h : prepare_inputs cfg b so start_index = some inp) :
    if cfg.batch_size = 1 then inp.num_scheduled_tokens_per_req.sum ≤ inp.padded_len
    else ∀ n ∈ inp.num_scheduled_tokens_per_req, n ≤ inp.padded_len := by
  have hbatch := cfg.batch_size_pos
  unfold prepare_inputs prepare_inputs_upto at h
  simp only [Option.bind_eq_bind, Option.bind_eq_some_iff, Options.guard_eq_some] at h
  obtain ⟨-, -, -, -, -, hlt, all_counts, hall, m, hm, -, -, p, hp, -, -, -, -, h⟩ := h
  unfold get_padded_token_len at hp
  have hle := List.find?_some hp
  simp only [decide_eq_true_eq] at hle
  split at h
  · rename_i hone
    simp only [fused_inputs, Option.bind_eq_bind, Option.bind_eq_some_iff] at h
    obtain ⟨-, -, h⟩ := h
    cases h
    rw [if_neg (by omega)] at hle
    rw [if_pos hone]
    exact hle
  · rename_i hmany
    cases h
    rw [if_pos (by omega)] at hle
    rw [if_neg hmany]
    intro n hn
    exact ((List.max?_eq_some_iff.mp hm).2 n hn).trans hle

theorem prepare_inputs_pos (hpos : ∀ id n, so.num_scheduled_tokens.lookup id = some n → 0 < n)
    (h : prepare_inputs cfg b so start_index = some inp) :
    ∀ n ∈ inp.num_scheduled_tokens_per_req, 0 < n := by
  obtain ⟨-, all_counts, hall, hcounts, -⟩ := prepare_inputs_counts h
  intro n hn
  rw [hcounts] at hn
  obtain ⟨i, hi, hget⟩ := List.getElem_of_mem (List.mem_of_mem_take hn)
  obtain ⟨hlen, hrows⟩ := Runner.getElem?_scheduled_counts hall
  obtain ⟨id, m, -, hm, hget'⟩ := hrows i (by omega)
  rw [List.getElem?_eq_getElem hi, hget, Option.some.injEq] at hget'
  subst hget'
  exact hpos id n hm

-- The tokens that share a request are those that share a segment.
theorem same_iff_segments {rows : Nat} {counts : List Nat} (hne : 0 < counts.length)
    (hrows : if cfg.batch_size = 1 then rows = 1 else counts.length ≤ rows) {c i j : Nat}
    (hc : c < rows) : (∃ r, IsToken cfg counts r c i ∧ IsToken cfg counts r c j) ↔
      Segments (decide (1 < rows)) counts 0 0 c i j := by
  by_cases hone : cfg.batch_size = 1
  · rw [if_pos hone] at hrows
    subst hrows
    obtain rfl : c = 0 := by omega
    have hsame := slots_same_iff counts 0 0 0 i j
    simp only [Nat.zero_le, Nat.sub_zero, true_and] at hsame
    simp only [IsToken, hone, ite_true, true_and, Nat.lt_irrefl, decide_false]
    rw [← hsame]
    constructor
    · rintro ⟨r, ⟨x, hx⟩, ⟨y, hy⟩⟩
      exact ⟨r, x, y, hx, hy⟩
    · rintro ⟨r, x, y, hx, hy⟩
      exact ⟨r, ⟨x, hx⟩, ⟨y, hy⟩⟩
  · rw [if_neg hone] at hrows
    have hmode : Segments (decide (1 < rows)) counts 0 0 c i j ↔ Segments true counts 0 0 c i j := by
      by_cases hmany : 1 < rows
      · simp only [hmany, decide_true]
      · -- one row, one request
        match counts, hne, hrows with
        | [n], _, _ => simp [Segments]
        | _ :: _ :: _, _, hrows =>
            simp only [List.length_cons] at hrows
            omega
    rw [hmode, ← rows_same_iff]
    simp only [IsToken, hone, ite_false, Nat.zero_le, Nat.sub_zero, true_and]
    constructor
    · rintro ⟨r, ⟨rfl, hi⟩, -, hj⟩
      exact ⟨hi, hj⟩
    · rintro ⟨hi, hj⟩
      exact ⟨c, ⟨rfl, hi⟩, rfl, hj⟩

theorem placed_packed {width : Nat} (counts : List Nat) {pos : Nat}
    (h : pos + counts.sum ≤ width) : Placed false width 1 counts pos 0 := by
  induction counts generalizing pos with
  | nil => trivial
  | cons n counts ih =>
      rw [List.sum_cons] at h
      refine ⟨Nat.one_pos, .inl (by omega), ?_⟩
      simp only [Bool.false_eq_true, ite_false]
      exact ih (by omega)

theorem placed_rows {width rows : Nat} (counts : List Nat) {idx : Nat}
    (hrows : idx + counts.length ≤ rows) (h : ∀ n ∈ counts, n ≤ width) :
    Placed true width rows counts 0 idx := by
  induction counts generalizing idx with
  | nil => trivial
  | cons n counts ih =>
      rw [List.length_cons] at hrows
      have hn := h n List.mem_cons_self
      refine ⟨by omega, .inl (by omega), ?_⟩
      simp only [ite_true]
      exact ih (by omega) fun m hm => h m (List.mem_cons_of_mem _ hm)

theorem placed_counts {width rows : Nat} {counts : List Nat} (hne : 0 < counts.length)
    (hrows : if cfg.batch_size = 1 then rows = 1 else counts.length ≤ rows)
    (hwidth : if cfg.batch_size = 1 then counts.sum ≤ width else ∀ n ∈ counts, n ≤ width) :
    Placed (decide (1 < rows)) width rows counts 0 0 := by
  by_cases hone : cfg.batch_size = 1
  · rw [if_pos hone] at hrows hwidth
    subst hrows
    exact placed_packed counts (by omega)
  · rw [if_neg hone] at hrows hwidth
    by_cases hmany : 1 < rows
    · rw [decide_eq_true hmany]
      exact placed_rows counts (by omega) hwidth
    · -- one row, one request
      cases counts with
      | nil => cases hne
      | cons n counts =>
          rw [List.length_cons] at hrows
          obtain rfl : counts = [] := List.length_eq_zero_iff.mp (by omega)
          have hn := hwidth n List.mem_cons_self
          exact ⟨by omega, .inl (by omega), trivial⟩

-- The segment lengths that the runner asks for.
def context_lens (b : InputBatch T) (counts : List Nat) : List Nat :=
  (List.range counts.length).map fun i => b.num_computed_tokens_cpu i + counts.getD i 0

-- What the buffer held before does not matter.
theorem fill_seq_lens_map (counts : List Nat) (seq_lens_np : Nat → Nat) (k : Nat) :
    (List.range (counts.length + k)).map (fill_seq_lens b counts seq_lens_np) =
      context_lens b counts ++ List.replicate k 0 := by
  rw [List.range_add, List.map_append, List.map_map]
  congr 1
  · apply List.map_congr_left
    intro i hi
    simp only [fill_seq_lens, List.mem_range.mp hi, ite_true]
  · rw [List.eq_replicate_iff]
    refine ⟨by rw [List.length_map, List.length_range], ?_⟩
    intro n hn
    obtain ⟨i, -, rfl⟩ := List.mem_map.mp hn
    simp only [fill_seq_lens, Function.comp_apply]
    rw [if_neg (by omega)]

theorem context_lens_ge {counts : List Nat} (hpos : ∀ n ∈ counts, 0 < n) :
    List.Forall₂ (fun n m => 0 < n ∧ n ≤ m) counts (context_lens b counts) := by
  rw [List.forall₂_iff_get]
  refine ⟨by simp [context_lens], fun i h₁ h₂ => ?_⟩
  simp only [List.get_eq_getElem, context_lens, List.getElem_map, List.getElem_range,
    List.getD_eq_getElem _ _ h₁]
  exact ⟨hpos _ (List.getElem_mem h₁), by omega⟩

theorem context_lens_eq_iff (counts : List Nat) :
    context_lens b counts = counts ↔ ∀ i < counts.length, b.num_computed_tokens_cpu i = 0 := by
  constructor
  · intro h i hi
    have hget := congrArg (·.getD i 0) h
    simp only [context_lens] at hget
    rw [List.getD_eq_getElem _ _ (by simpa using hi), List.getElem_map, List.getElem_range] at hget
    omega
  · intro h
    apply List.ext_getElem
    · simp [context_lens]
    · intro i h₁ h₂
      simp only [context_lens, List.getElem_map, List.getElem_range]
      rw [h i h₂, List.getD_eq_getElem _ _ h₂, Nat.zero_add]

-- The loop runs over these lengths, and some zeros.
theorem attn_mask_eq (dec : Bool) (num_devices : Option Nat)
    (h : prepare_inputs cfg b so start_index = some inp) :
    ∃ k, ∀ seq_lens_np, attn_mask cfg dec num_devices b so start_index seq_lens_np =
      if needs_mask cfg dec then
        (write_segments inp.padded_len (attn_mask_batch_size cfg num_devices inp) dec
          (context_lens b inp.num_scheduled_tokens_per_req ++ List.replicate k 0) 0 0
          fun _ _ _ => false).map some
      else some none := by
  obtain ⟨-, all_counts, hall, hcounts, -, hfit, -⟩ := prepare_inputs_counts h
  have hlimit : inp.num_scheduled_tokens_per_req.length ≤ cfg.num_reqs_limit all_counts := by
    rw [hcounts, List.length_take]
    omega
  obtain ⟨k, hk⟩ : ∃ k, min (if cfg.use_max_model_len all_counts then
      inp.num_scheduled_tokens_per_req.length else cfg.num_reqs_most_model_len.getD 0)
      cfg.max_num_tokens = inp.num_scheduled_tokens_per_req.length + k := by
    apply Nat.exists_eq_add_of_le
    apply Nat.le_min.mpr
    refine ⟨?_, hfit⟩
    split
    · exact Nat.le_refl _
    · rename_i huse
      unfold BaseConfig.num_reqs_limit at hlimit
      rw [if_neg huse] at hlimit
      exact hlimit
  refine ⟨k, fun seq_lens_np => ?_⟩
  unfold attn_mask
  rw [h, hall]
  simp only [Option.bind_eq_bind, Option.bind_some, hk, fill_seq_lens_map]
  rfl

theorem length_token_slots (counts : List Nat) : (token_slots counts).length = counts.sum := by
  unfold token_slots
  rw [List.length_flatMap]
  simp only [List.length_map, List.length_range]
  exact congrArg List.sum (List.zipIdx_map_fst 0 counts)

theorem IsToken.bounds {width rows : Nat} {counts : List Nat} {r c t : Nat}
    (hrows : if cfg.batch_size = 1 then rows = 1 else counts.length ≤ rows)
    (hwidth : if cfg.batch_size = 1 then counts.sum ≤ width else ∀ n ∈ counts, n ≤ width)
    (h : IsToken cfg counts r c t) : c < rows ∧ t < width := by
  unfold IsToken at h
  split at h
  · rename_i hone
    rw [if_pos hone] at hrows hwidth
    obtain ⟨rfl, k, hk⟩ := h
    have hlt := (List.getElem?_eq_some_iff.mp hk).1
    rw [length_token_slots] at hlt
    omega
  · rename_i hmany
    rw [if_neg hmany] at hrows hwidth
    obtain ⟨rfl, ht⟩ := h
    have hlt : c < counts.length := by
      by_contra hge
      rw [List.getD_eq_default _ _ (by omega)] at ht
      omega
    have hle := hwidth _ (List.getElem_mem hlt)
    rw [List.getD_eq_getElem _ _ hlt] at ht
    omega

-- Writing the segments of these lengths separates the requests exactly when they are the counts
-- of the tokens in the input.
theorem separates_iff (dec : Bool) {width rows : Nat} {counts lens : List Nat} (k : Nat)
    (hne : 0 < counts.length)
    (hrows : if cfg.batch_size = 1 then rows = 1 else counts.length ≤ rows)
    (hwidth : if cfg.batch_size = 1 then counts.sum ≤ width else ∀ n ∈ counts, n ≤ width)
    (hle : List.Forall₂ (fun n m => 0 < n ∧ n ≤ m) counts lens) :
    (∃ mask, write_segments width rows dec (lens ++ List.replicate k 0) 0 0
      (fun _ _ _ => false) = some mask ∧ Separates cfg dec counts width rows mask) ↔
      lens = counts := by
  have hpos : ∀ n ∈ lens, 0 < n := by
    intro m hm
    obtain ⟨i, hi, rfl⟩ := List.getElem_of_mem hm
    have hn := hle.get (by rw [hle.length_eq]; exact hi) hi
    exact hn.1.trans_le hn.2
  constructor
  · rintro ⟨mask, hwrite, hsep⟩
    obtain ⟨hplaced, hmask⟩ := write_segments_eq_some k hpos hwrite
    apply eq_of_segments hle hplaced
    intro c i j hc hi hj hji
    have hwritten := hmask c i j hi hj
    rw [hsep.allowed c i j hc hi hj, same_iff_segments hne hrows hc] at hwritten
    simp only [Bool.false_eq_true, and_false, or_false] at hwritten
    constructor
    · intro h
      exact (hwritten.mpr ⟨h, fun _ => hji⟩).1
    · intro h
      exact (hwritten.mp ⟨h, fun _ => hji⟩).1
  · rintro rfl
    obtain ⟨mask, hwrite⟩ := write_segments_isSome dec k hpos (fun _ _ _ => false)
      (placed_counts hne hrows hwidth)
    obtain ⟨-, hmask⟩ := write_segments_eq_some k hpos hwrite
    have hallowed : ∀ c i j, c < rows → i < width → j < width → (mask c i j = true ↔
        (∃ r, IsToken cfg lens r c i ∧ IsToken cfg lens r c j) ∧ (dec → j ≤ i)) := by
      intro c i j hc hi hj
      rw [hmask c i j hi hj, same_iff_segments hne hrows hc]
      simp only [Bool.false_eq_true, and_false, or_false]
    refine ⟨mask, hwrite, hallowed, fun r c i hi => ?_⟩
    obtain ⟨hc, hlt⟩ := hi.bounds hrows hwidth
    -- a token attends to itself
    exact ⟨hc, hlt, i, hlt, (hallowed c i i hc hlt hlt).mpr ⟨⟨r, hi, hi⟩, fun _ => Nat.le_refl _⟩⟩

-- The mask is right exactly when no request of these rows has computed tokens: the segments have
-- the lengths of the whole sequences.
theorem masks_iff {dec : Bool} {num_devices : Option Nat}
    (hpos : ∀ id n, so.num_scheduled_tokens.lookup id = some n → 0 < n)
    (h : prepare_inputs cfg b so start_index = some inp) :
    MasksRight cfg dec num_devices b so start_index inp ↔
      (¬needs_mask cfg dec ∨
        ∀ i < inp.num_scheduled_tokens_per_req.length, b.num_computed_tokens_cpu i = 0) := by
  obtain ⟨k, hattn⟩ := attn_mask_eq dec num_devices h
  have hne := (prepare_inputs_counts h).2.choose_spec.2.2.1
  have hrows : if cfg.batch_size = 1 then attn_mask_batch_size cfg num_devices inp = 1
      else inp.num_scheduled_tokens_per_req.length ≤ attn_mask_batch_size cfg num_devices inp := by
    unfold attn_mask_batch_size
    split
    · rfl
    · exact Nat.le_add_right _ _
  rw [← context_lens_eq_iff, ← separates_iff dec k hne hrows (prepare_inputs_padded h)
    (context_lens_ge (prepare_inputs_pos hpos h))]
  unfold MasksRight
  simp only [hattn]
  by_cases hneeds : needs_mask cfg dec
  · simp only [hneeds, if_true, not_true, false_or]
    constructor
    · rintro ⟨result, hresult⟩
      obtain ⟨heq, hmasks⟩ := hresult fun _ => 0
      obtain ⟨mask, hwrite, rfl⟩ := Option.map_eq_some_iff.mp heq
      exact ⟨mask, hwrite, hmasks mask rfl⟩
    · rintro ⟨mask, hwrite, hsep⟩
      refine ⟨some mask, fun _ => ⟨by rw [hwrite]; rfl, fun mask' hmask' => ?_⟩⟩
      cases hmask'
      exact hsep
  · simp only [hneeds, if_false, not_false_eq_true, true_or, iff_true]
    exact ⟨none, fun _ => ⟨rfl, fun mask hmask => by cases hmask⟩⟩

end Prepared

section Example

open Runner (twoRows oneGroup newReq prefill)
open Pair (twoPooled start pooledParams firstHalf)

def twoPrompts : SchedulerOutput := prefill [newReq "A" [7, 8] [1], newReq "B" [9] [2]] []

def afterPrompts : Pair DenseTable :=
  (Pair.step twoRows twoPooled .asListed start (twoPrompts, pooledParams)).get (by decide)

def promptInputs : PoolingInputs :=
  (prepare_inputs twoPooled afterPrompts.generative.input_batch twoPrompts 0).get (by decide)

theorem prompts_separated : MasksRight twoPooled true none afterPrompts.generative.input_batch
    twoPrompts 0 promptInputs := by
  have hall : ∀ e ∈ twoPrompts.num_scheduled_tokens.entries, 0 < e.2 := by decide
  exact (masks_iff (fun id n h => hall ⟨id, n⟩ (AList.mem_lookup_iff.mp h))
    (Option.some_get _).symm).mpr (.inr (by decide))

-- Two prompts of four tokens in halves, with a step for a third request in between.
def halves : SchedulerOutput :=
  { prefill [newReq "A" [7, 8, 9, 10] [1], newReq "B" [3, 4, 5, 6] [2]] [] with
    num_scheduled_tokens := ((∅ : Dict ReqId Nat).insert "B" 2).insert "A" 2
    total_num_scheduled_tokens := 4 }

def otherHalves : SchedulerOutput :=
  { prefill [] [] with
    scheduled_cached_reqs := [⟨"A", none, 2⟩, ⟨"B", none, 2⟩]
    num_scheduled_tokens := ((∅ : Dict ReqId Nat).insert "B" 2).insert "A" 2
    total_num_scheduled_tokens := 4 }

def afterHalves : Pair DenseTable :=
  (Run.exec (Pair.step twoRows twoPooled .asListed) Pair.Allowed start
    [(halves, pooledParams), (prefill [newReq "C" [4] [3]] [], pooledParams),
      (otherHalves, pooledParams)]).get (by decide)

def halfInputs : PoolingInputs :=
  (prepare_inputs twoPooled afterHalves.generative.input_batch otherHalves 0).get (by decide)

-- The first token of the second request attends to the first token of the first one.
theorem halves_leak :
    Run.Reachable (Pair.step twoRows twoPooled .asListed) Pair.Allowed start afterHalves ∧
      afterHalves.pooling.isSome ∧
      ¬MasksRight twoPooled true none afterHalves.generative.input_batch otherHalves 0
        halfInputs := by
  refine ⟨.of_exec [(halves, pooledParams), (prefill [newReq "C" [4] [3]] [], pooledParams),
    (otherHalves, pooledParams)] .start (Option.some_get _).symm, by decide, ?_⟩
  rintro ⟨result, hresult⟩
  obtain ⟨heq, hmasks⟩ := hresult fun _ => 0
  have hwritten : ∃ mask, result = some mask ∧ mask 0 2 0 = true := by
    have hleak : ((attn_mask twoPooled true none afterHalves.generative.input_batch otherHalves 0
        fun _ => 0).bind fun result => result.map fun mask => mask 0 2 0) = some true := by decide
    rw [heq, Option.bind_some] at hleak
    exact Option.map_eq_some_iff.mp hleak
  obtain ⟨mask, rfl, hmask⟩ := hwritten
  obtain ⟨⟨r, hi, hj⟩, -⟩ :=
    ((hmasks mask rfl).allowed 0 2 0 (by decide) (by decide) (by decide)).mp hmask
  -- the one is a token of the second request, the other of the first
  have hslots : (token_slots halfInputs.num_scheduled_tokens_per_req)[2]? = some (1, 0) ∧
      (token_slots halfInputs.num_scheduled_tokens_per_req)[0]? = some (0, 0) := by decide
  obtain ⟨-, x, hx⟩ := hi
  obtain ⟨-, y, hy⟩ := hj
  rw [hslots.1] at hx
  rw [hslots.2] at hy
  cases hx
  cases hy

end Example

end TTXla.VllmTT.Pooling
