import TTXla.VllmTT.ModelRunner.Chunks
import TTXla.Lib.Writes

-- What the attention layer writes to the paged KV cache.
namespace TTXla.VllmTT

-- What the cache holds at an offset of a block. The keys and the values of all layers and
-- heads are written at the same addresses, and stand together here.
abbrev KVCache (V : Type) := Nat × Nat → V

namespace Attention

open Writes (store)

variable {V : Type}

-- The writes of `paged_fill_cache`: the first blocks, then part of the final one.
def fill_writes (num_blocks block_size num_cols : Nat) (batch_block_indices : Nat → Nat)
    (fill_seq_len : Nat) (fill_value : Nat → V) : Option (List ((Nat × Nat) × V)) := do
  let num_blocks_to_fill := fill_seq_len / block_size
  let part_of_final_block_to_fill := fill_seq_len % block_size
  -- the row has an index for each of the first blocks
  guard (num_blocks_to_fill ≤ num_cols)
  let first := (List.range (num_blocks_to_fill * block_size)).map fun t =>
    ((batch_block_indices (t / block_size), t % block_size), fill_value t)
  -- past the end of the row the slice of indices is empty
  let final := if num_blocks_to_fill < num_cols then
    (List.range part_of_final_block_to_fill).map fun offset =>
      ((batch_block_indices num_blocks_to_fill, offset),
        fill_value (num_blocks_to_fill * block_size + offset)) else []
  guard (∀ w ∈ first ++ final, w.1.1 < num_blocks)
  return first ++ final

def paged_fill_cache (num_blocks block_size num_cols : Nat) (batch_block_indices : Nat → Nat)
    (fill_seq_len : Nat) (fill_value : Nat → V) (cache : KVCache V) : Option (KVCache V) :=
  (fill_writes num_blocks block_size num_cols batch_block_indices fill_seq_len fill_value).map
    (store cache)

-- The write of `paged_update_cache` for one user. Division rounds down and an index that is
-- negative counts from the end of the row.
def update_write (num_blocks block_size num_cols : Nat) (page_table : Nat → Nat)
    (update_index : Int) (fill_value : V) : Option ((Nat × Nat) × V) := do
  let block_index ← tensorIndex .raise num_cols (update_index / block_size)
  let block_offset := (update_index % block_size).toNat
  guard (page_table block_index < num_blocks)
  return ((page_table block_index, block_offset), fill_value)

def paged_update_cache (num_blocks block_size num_cols : Nat) (page_table : Nat → Nat → Nat)
    (update_indices : List Int) (fill_value : Nat → V) (cache : KVCache V) :
    Option (KVCache V) :=
  let writes := (List.range update_indices.length).mapM fun user =>
    update_write num_blocks block_size num_cols (page_table user) (update_indices.getD user 0)
      (fill_value user)
  writes.map (store cache)

-- `_handle_paged_attention`. A single padded column is a decode step.
def handle_paged_attention (num_blocks block_size : Nat) (inp : ModelInputs)
    (kv : Nat → Nat → V) (cache : KVCache V) : Option (KVCache V) :=
  if 1 < inp.padded_len then
    (List.range inp.cache_position.length).foldlM (fun cache batch_idx =>
      paged_fill_cache num_blocks block_size inp.num_cols (inp.page_table batch_idx)
        inp.padded_len (kv batch_idx) cache) cache
  else
    paged_update_cache num_blocks block_size inp.num_cols inp.page_table inp.cache_position
      (fun user => kv user 0) cache

-- `forward`, as far as the cache goes: the inputs have `max_num_reqs` rows, and
-- `_prepare_inputs` asserts that this is the number of users.
def attend (cfg : RunnerConfig) (num_blocks : Nat) (inp : ModelInputs) (kv : Nat → Nat → V)
    (cache : KVCache V) : Option (KVCache V) := do
  guard (cfg.max_num_reqs = inp.cache_position.length)
  handle_paged_attention num_blocks cfg.block_size inp kv cache

-- What one row of the batch writes, in either mode.
def row_writes (num_blocks block_size : Nat) (inp : ModelInputs) (kv : Nat → Nat → V)
    (row : Nat) : Option (List ((Nat × Nat) × V)) :=
  if 1 < inp.padded_len then
    fill_writes num_blocks block_size inp.num_cols (inp.page_table row) inp.padded_len (kv row)
  else
    (update_write num_blocks block_size inp.num_cols (inp.page_table row)
      (inp.cache_position.getD row 0) (kv row 0)).map fun w => [w]

-- The column and the offset through which a row is written.
def Lands (block_size : Nat) (inp : ModelInputs) (row col offset : Nat) : Prop :=
  if 1 < inp.padded_len then
    col < inp.num_cols ∧ offset < block_size ∧ col * block_size + offset < inp.padded_len
  else
    tensorIndex .raise inp.num_cols (inp.cache_position.getD row 0 / block_size) = some col ∧
      offset = (inp.cache_position.getD row 0 % block_size).toNat

theorem mem_fill_writes {num_blocks block_size num_cols fill_seq_len : Nat}
    {batch_block_indices : Nat → Nat} {fill_value : Nat → V} {ws : List ((Nat × Nat) × V)}
    (hpos : 0 < block_size)
    (h : fill_writes num_blocks block_size num_cols batch_block_indices fill_seq_len fill_value =
      some ws) (w : (Nat × Nat) × V) :
    w ∈ ws ↔ ∃ col offset, (col < num_cols ∧ offset < block_size ∧
      col * block_size + offset < fill_seq_len) ∧
      w = ((batch_block_indices col, offset), fill_value (col * block_size + offset)) := by
  unfold fill_writes at h
  simp only [Option.bind_eq_bind, Option.bind_eq_some_iff, Options.guard_eq_some] at h
  obtain ⟨-, hle, -, -, h⟩ := h
  cases h
  have hdiv := Nat.div_add_mod fill_seq_len block_size
  rw [Nat.mul_comm] at hdiv
  have hmod := Nat.mod_lt fill_seq_len hpos
  generalize fill_seq_len / block_size = num_full at *
  generalize fill_seq_len % block_size = part at *
  rw [List.mem_append]
  constructor
  · rintro (hw | hw)
    · obtain ⟨t, ht, rfl⟩ := List.mem_map.mp hw
      have ht := List.mem_range.mp ht
      have hcol : t / block_size < num_full := (Nat.div_lt_iff_lt_mul hpos).mpr ht
      have hself := Nat.div_add_mod t block_size
      rw [Nat.mul_comm] at hself
      refine ⟨t / block_size, t % block_size, ⟨by omega, Nat.mod_lt _ hpos, by omega⟩, ?_⟩
      rw [hself]
    · split at hw
      · obtain ⟨offset, ho, rfl⟩ := List.mem_map.mp hw
        have ho := List.mem_range.mp ho
        exact ⟨num_full, offset, ⟨by omega, by omega, by omega⟩, rfl⟩
      · cases hw
  · rintro ⟨col, offset, ⟨hcol, hoff, hlt⟩, rfl⟩
    by_cases hfull : col < num_full
    · left
      have hmul : (col + 1) * block_size ≤ num_full * block_size :=
        Nat.mul_le_mul_right _ hfull
      rw [Nat.add_mul, Nat.one_mul] at hmul
      refine List.mem_map.mpr ⟨col * block_size + offset, List.mem_range.mpr (by omega), ?_⟩
      rw [Nat.mul_comm, Nat.mul_add_div hpos, Nat.div_eq_of_lt hoff, Nat.mul_add_mod,
        Nat.mod_eq_of_lt hoff, Nat.add_zero]
    · right
      have heq : col = num_full := by
        by_contra hne
        have hmul : (num_full + 1) * block_size ≤ col * block_size :=
          Nat.mul_le_mul_right _ (by omega)
        rw [Nat.add_mul, Nat.one_mul] at hmul
        omega
      subst heq
      rw [if_pos hcol]
      exact List.mem_map.mpr ⟨offset, List.mem_range.mpr (by omega), rfl⟩

-- The position within the padded row that is written to a column and an offset.
def written_position (block_size : Nat) (inp : ModelInputs) (col offset : Nat) : Nat :=
  if 1 < inp.padded_len then col * block_size + offset else 0

theorem mem_row_writes {num_blocks block_size : Nat} {inp : ModelInputs} {kv : Nat → Nat → V}
    {row : Nat} {ws : List ((Nat × Nat) × V)} (hpos : 0 < block_size)
    (h : row_writes num_blocks block_size inp kv row = some ws) (w : (Nat × Nat) × V) :
    w ∈ ws ↔ ∃ col offset, Lands block_size inp row col offset ∧
      w = ((inp.page_table row col, offset), kv row (written_position block_size inp col offset)) := by
  unfold row_writes at h
  unfold Lands written_position
  split at h
  · rename_i hp
    simp only [hp, ite_true]
    exact mem_fill_writes hpos h w
  · rename_i hp
    simp only [hp, ite_false]
    obtain ⟨w', hw', rfl⟩ := Option.map_eq_some_iff.mp h
    unfold update_write at hw'
    simp only [Option.bind_eq_bind, Option.bind_eq_some_iff, Options.guard_eq_some] at hw'
    obtain ⟨col, hcol, -, -, hw'⟩ := hw'
    cases hw'
    rw [List.mem_singleton]
    constructor
    · rintro rfl
      exact ⟨col, _, ⟨hcol, rfl⟩, rfl⟩
    · rintro ⟨col', offset, ⟨hcol', rfl⟩, rfl⟩
      obtain rfl := Option.some.inj (hcol.symm.trans hcol')
      rfl

theorem exists_lands {num_blocks block_size : Nat} {inp : ModelInputs} {kv : Nat → Nat → V}
    {row : Nat} {ws : List ((Nat × Nat) × V)} (hone : ¬1 < inp.padded_len)
    (h : row_writes num_blocks block_size inp kv row = some ws) :
    ∃ col offset, Lands block_size inp row col offset := by
  unfold row_writes at h
  unfold Lands
  simp only [hone, ite_false] at h ⊢
  obtain ⟨w, hw, -⟩ := Option.map_eq_some_iff.mp h
  obtain ⟨col, hcol, -⟩ := Option.bind_eq_some_iff.mp hw
  exact ⟨col, _, hcol, rfl⟩

theorem foldlM_store {ι : Type} (f : ι → Option (List ((Nat × Nat) × V))) (l : List ι)
    {cache cache' : KVCache V}
    (h : l.foldlM (fun cache i => (f i).map (store cache)) cache = some cache') :
    (∀ i ∈ l, ∃ ws, f i = some ws) ∧ cache' = store cache (l.flatMap fun i => (f i).getD []) := by
  induction l generalizing cache with
  | nil =>
      cases h
      exact ⟨by simp, rfl⟩
  | cons i l ih =>
      rw [List.foldlM_cons] at h
      obtain ⟨mid, hmid, h⟩ := Option.bind_eq_some_iff.mp h
      obtain ⟨ws, hws, rfl⟩ := Option.map_eq_some_iff.mp hmid
      obtain ⟨i1, i2⟩ := ih h
      refine ⟨fun j hj => ?_, ?_⟩
      · rcases List.mem_cons.mp hj with rfl | hj
        · exact ⟨ws, hws⟩
        · exact i1 j hj
      · rw [i2, List.flatMap_cons, Writes.store_append, hws]
        rfl

theorem mapM_store {ι : Type} (f : ι → Option ((Nat × Nat) × V)) (l : List ι)
    {ws : List ((Nat × Nat) × V)} (h : l.mapM f = some ws) :
    (∀ i ∈ l, ∃ w, f i = some w) ∧
      ws = l.flatMap fun i => ((f i).map fun w => [w]).getD [] := by
  induction l generalizing ws with
  | nil =>
      cases h
      exact ⟨by simp, rfl⟩
  | cons i l ih =>
      rw [List.mapM_cons] at h
      obtain ⟨w, hw, h⟩ := Option.bind_eq_some_iff.mp h
      obtain ⟨ws', hws, h⟩ := Option.bind_eq_some_iff.mp h
      cases h
      obtain ⟨i1, i2⟩ := ih hws
      refine ⟨fun j hj => ?_, ?_⟩
      · rcases List.mem_cons.mp hj with rfl | hj
        · exact ⟨w, hw⟩
        · exact i1 j hj
      · rw [List.flatMap_cons, hw, ← i2]
        rfl

-- The cache after a layer: the writes of all the rows, one after the other.
theorem attend_eq {cfg : RunnerConfig} {num_blocks : Nat} {inp : ModelInputs}
    {kv : Nat → Nat → V} {cache cache' : KVCache V}
    (h : attend cfg num_blocks inp kv cache = some cache') :
    cfg.max_num_reqs = inp.cache_position.length ∧
      (∀ row < inp.cache_position.length, ∃ ws,
        row_writes num_blocks cfg.block_size inp kv row = some ws) ∧
      cache' = store cache ((List.range inp.cache_position.length).flatMap fun row =>
        (row_writes num_blocks cfg.block_size inp kv row).getD []) := by
  unfold attend at h
  simp only [Option.bind_eq_bind, Option.bind_eq_some_iff, Options.guard_eq_some] at h
  obtain ⟨-, hlen, h⟩ := h
  refine ⟨hlen, ?_⟩
  unfold handle_paged_attention at h
  unfold row_writes
  split at h
  · rename_i hp
    simp only [hp, ite_true]
    obtain ⟨h1, h2⟩ := foldlM_store _ _ h
    exact ⟨fun row hrow => h1 row (List.mem_range.mpr hrow), h2⟩
  · rename_i hp
    simp only [hp, ite_false]
    obtain ⟨ws, hws, rfl⟩ := Option.map_eq_some_iff.mp h
    obtain ⟨h1, h2⟩ := mapM_store _ _ hws
    refine ⟨fun row hrow => ?_, by rw [h2]⟩
    obtain ⟨w, hw⟩ := h1 row (List.mem_range.mpr hrow)
    exact ⟨[w], by rw [hw]; rfl⟩

end Attention

-- A decoder with this attention layer: the keys and values it computes, and its output.
structure Decoder (V H LP : Type) where
  kv : KVCache V → ModelInputs → Nat → Nat → V
  hidden : KVCache V → ModelInputs → Nat → Nat → H
  sample : List H → SamplingMetadata → Option (Nat → Option (List Nat)) → List Token
  gather_logprobs : List H → List Token → List LP

def Decoder.model {V H LP : Type} (d : Decoder V H LP) (cfg : RunnerConfig) (num_blocks : Nat) :
    Model (KVCache V) H LP where
  forward := fun cache inp =>
    (Attention.attend cfg num_blocks inp (d.kv cache inp) cache).map fun cache' =>
      (cache', d.hidden cache' inp)
  sample := d.sample
  gather_logprobs := d.gather_logprobs

end TTXla.VllmTT
