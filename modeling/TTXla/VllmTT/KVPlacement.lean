import TTXla.VllmTT.KVCache

-- Where the keys and values of the scheduled tokens are stored.
namespace TTXla.VllmTT.Runner

open Attention (attend row_writes Lands written_position)
open Writes (store)

variable {T : Type} [BlockTable T] {V H LP : Type}

-- The request in a row of the batch, its cached state and its blocks.
structure InRow (rs : Runner T) (i : Nat) (id : ReqId) (st : CachedRequestState)
    (blocks : List Nat) : Prop where
  req_id : rs.input_batch.req_ids[i]? = some (some id)
  state : rs.requests.lookup id = some st
  blocks : st.block_ids[0]? = some blocks

-- The blocks of each request hold its tokens. Only blocks that lie before the computed tokens
-- may be shared, as a cached prefix is.
structure Allocated (cfg : RunnerConfig) (rs : Runner T) (so : SchedulerOutput) : Prop where
  pos : ∀ id n, so.num_scheduled_tokens.lookup id = some n → 0 < n
  covers : ∀ i id st blocks n, InRow rs i id st blocks →
    so.num_scheduled_tokens.lookup id = some n →
    st.num_computed_tokens + n ≤ blocks.length * cfg.block_size
  nodup : ∀ i id st blocks, InRow rs i id st blocks → blocks.Nodup
  null : ∀ i id st blocks, InRow rs i id st blocks → 0 ∉ blocks
  exclusive : ∀ i id st blocks i' id' st' blocks', InRow rs i id st blocks →
    InRow rs i' id' st' blocks' → i ≠ i' →
    ∀ blk ∈ blocks.drop (st.num_computed_tokens / cfg.block_size), blk ∉ blocks'

-- After the step, every scheduled request has the keys and values of its new tokens where its
-- block table says, and those of its computed tokens as they were.
def PlacesKV (cfg : RunnerConfig) (d : Decoder V H LP) (so : SchedulerOutput)
    (s s' : Runner T × KVCache V) : Prop :=
  ∀ (inp : ModelInputs) (rs' : Runner T),
    prepare_inputs cfg { s.1 with scheduler_output := none } so 0 = some (inp, rs') →
    ∀ i id st blocks n, InRow s.1 i id st blocks → so.num_scheduled_tokens.lookup id = some n →
      (∀ p, st.num_computed_tokens ≤ p → p < st.num_computed_tokens + n →
        ∃ blk, blocks[p / cfg.block_size]? = some blk ∧
          s'.2 (blk, p % cfg.block_size) = d.kv s.2 inp i (p - st.num_computed_tokens)) ∧
      ∀ p < st.num_computed_tokens, ∃ blk, blocks[p / cfg.block_size]? = some blk ∧
        s'.2 (blk, p % cfg.block_size) = s.2 (blk, p % cfg.block_size)

-- The slot of a token of the request in a row, up to its scheduled tokens.
def Slot (cfg : RunnerConfig) (rs : Runner T) (counts : List Nat) (i blk offset : Nat) : Prop :=
  ∃ p < rs.input_batch.num_computed_tokens_cpu i + counts.getD i 0,
    BlockTable.entry rs.input_batch.block_table 0 i (p / cfg.block_size) = blk ∧
      p % cfg.block_size = offset

-- A prefill starts at the beginning of every request, and what earlier steps left in the page
-- table leads to no slot that is already written.
structure Undisturbed (cfg : RunnerConfig) (rs : Runner T) (counts : List Nat) : Prop where
  from_start : (∃ n ∈ counts, 1 < n) → ∀ i < rs.input_batch.num_reqs,
    rs.input_batch.num_computed_tokens_cpu i = 0
  rows : rs.input_batch.num_reqs ≠ 1 → ∀ row, rs.input_batch.num_reqs ≤ row →
    row < cfg.max_num_reqs → ∀ col offset,
    Reaches cfg counts (rs.seq_lens_cpu row) col offset →
    ∀ i < rs.input_batch.num_reqs, ¬Slot cfg rs counts i (rs.block_table_cpu row col) offset
  tails : ∀ row < rs.input_batch.num_reqs, ∀ col offset,
    Reaches cfg counts (rs.input_batch.num_computed_tokens_cpu row + counts.getD row 0) col
      offset →
    BlockTable.count rs.input_batch.block_table 0 row ≤ col →
    ∀ i ≤ row, ¬Slot cfg rs counts i
      (BlockTable.entry rs.input_batch.block_table 0 row col) offset

section Positions

variable {cfg : RunnerConfig} {so : SchedulerOutput} {rs rs' : Runner T} {inp : ModelInputs}
  {counts : List Nat}

theorem tensorIndex_raise_natCast {len x col : Nat}
    (h : tensorIndex .raise len (x : Int) = some col) : col = x := by
  by_cases hlt : x < len
  · rw [tensorIndex_of_lt .raise (Int.natCast_nonneg x) (Int.ofNat_lt.mpr hlt),
      Int.toNat_natCast, Option.some.injEq] at h
    exact h.symm
  · simp only [tensorIndex] at h
    rw [if_neg (by omega)] at h
    cases h

-- A decode step reaches the last token of a sequence only.
theorem reaches_decode (hone : ∀ n ∈ counts, n ≤ 1) {m col offset : Nat}
    (h : Reaches cfg counts (m + 1) col offset) :
    col = m / cfg.block_size ∧ offset = m % cfg.block_size := by
  unfold Reaches at h
  rw [if_pos hone, Int.natCast_add, Int.natCast_one, Int.add_sub_cancel, ← Int.natCast_ediv,
    ← Int.natCast_emod, Int.toNat_natCast] at h
  exact ⟨tensorIndex_raise_natCast h.1, h.2⟩

-- What the block table holds for the scheduled requests.
structure RowAllocated (cfg : RunnerConfig) (rs : Runner T) (counts : List Nat) (i : Nat) :
    Prop where
  pos : 0 < counts.getD i 0
  covers : ∀ p < rs.input_batch.num_computed_tokens_cpu i + counts.getD i 0,
    p / cfg.block_size < BlockTable.count rs.input_batch.block_table 0 i
  inj : ∀ col < BlockTable.count rs.input_batch.block_table 0 i,
    ∀ col' < BlockTable.count rs.input_batch.block_table 0 i,
    BlockTable.entry rs.input_batch.block_table 0 i col =
      BlockTable.entry rs.input_batch.block_table 0 i col' → col = col'
  null : ∀ col < BlockTable.count rs.input_batch.block_table 0 i,
    BlockTable.entry rs.input_batch.block_table 0 i col ≠ 0
  exclusive : ∀ j < rs.input_batch.num_reqs, i ≠ j →
    ∀ col < BlockTable.count rs.input_batch.block_table 0 i,
    rs.input_batch.num_computed_tokens_cpu i / cfg.block_size ≤ col →
    ∀ col' < BlockTable.count rs.input_batch.block_table 0 j,
    BlockTable.entry rs.input_batch.block_table 0 i col ≠
      BlockTable.entry rs.input_batch.block_table 0 j col'

theorem inRow_of_lt (h : Consistent cfg rs) (hg : 0 < BlockTable.groups rs.input_batch.block_table)
    {i : Nat} (hi : i < rs.input_batch.num_reqs) : ∃ id st,
      InRow rs i id st (BlockTable.blocks rs.input_batch.block_table 0 i) ∧
      rs.input_batch.num_computed_tokens_cpu i = st.num_computed_tokens := by
  obtain ⟨id, hid⟩ := (row_occupied h.full).mp hi
  obtain ⟨st, hst, hc, hblocks⟩ := row_blocks h hg hid
  exact ⟨id, st, ⟨hid, hst, hblocks⟩, hc⟩

theorem length_blocks (t : T) (g row : Nat) :
    (BlockTable.blocks t g row).length = BlockTable.count t g row := by
  simp [BlockTable.blocks]

theorem getElem?_blocks {t : T} {g row col : Nat} (h : col < BlockTable.count t g row) :
    (BlockTable.blocks t g row)[col]? = some (BlockTable.entry t g row col) := by
  simp [BlockTable.blocks, h]

theorem rowAllocated (h : Consistent cfg rs)
    (hg : 0 < BlockTable.groups rs.input_batch.block_table) (ha : Allocated cfg rs so)
    (hc : scheduled_counts rs.input_batch so 0 = some counts) {i : Nat}
    (hi : i < rs.input_batch.num_reqs) : RowAllocated cfg rs counts i := by
  obtain ⟨id, st, hrow, hcomputed⟩ := inRow_of_lt h hg hi
  obtain ⟨id', n, hid', hn, hcount⟩ := (getElem?_scheduled_counts hc).2 i (by omega)
  rw [Nat.zero_add] at hid'
  obtain rfl : id' = id := Option.some.inj (Option.some.inj (hid'.symm.trans hrow.req_id))
  have hget : counts.getD i 0 = n := by
    rw [List.getD_eq_getElem?_getD, hcount]
    rfl
  have hcovers := ha.covers _ _ _ _ n hrow hn
  rw [length_blocks, ← hcomputed] at hcovers
  refine ⟨?_, fun p hp => ?_, fun col hcol col' hcol' he => ?_, fun col hcol he => ?_,
    fun j hj hne col hcol hle col' hcol' he => ?_⟩
  · rw [hget]
    exact ha.pos _ n hn
  · rw [hget] at hp
    exact (Nat.div_lt_iff_lt_mul cfg.block_size_pos).mpr (by omega)
  · have hnodup := ha.nodup _ _ _ _ hrow
    apply (List.getElem?_inj (by rwa [length_blocks]) hnodup).mp
    rw [getElem?_blocks hcol, getElem?_blocks hcol', he]
  · have hnull := ha.null _ _ _ _ hrow
    have hmem := entry_mem_blocks hcol
    rw [he] at hmem
    exact hnull hmem
  · obtain ⟨id₂, st₂, hrow₂, -⟩ := inRow_of_lt h hg hj
    have hmem : BlockTable.entry rs.input_batch.block_table 0 i col ∈
        (BlockTable.blocks rs.input_batch.block_table 0 i).drop
          (st.num_computed_tokens / cfg.block_size) := by
      rw [← hcomputed]
      apply List.mem_iff_getElem?.mpr
      refine ⟨col - rs.input_batch.num_computed_tokens_cpu i / cfg.block_size, ?_⟩
      rw [List.getElem?_drop, Nat.add_sub_cancel' hle, getElem?_blocks hcol]
    apply ha.exclusive _ _ _ _ _ _ _ _ hrow hrow₂ hne _ hmem
    rw [he]
    exact entry_mem_blocks hcol'

end Positions

section Steps

variable {cfg : RunnerConfig} {sets : SetOrder} {mode : OutOfRange} {d : Decoder V H LP}
  {num_blocks : Nat} {so : SchedulerOutput} {grammar_output : Option GrammarOutput}
  {rs rs' : Runner T} {k k' : KVCache V} {s s' : Runner T × KVCache V} {counts : List Nat}
  {inp : ModelInputs}

theorem Executes.num_reqs (he : Executes cfg d num_blocks so rs k k' counts inp rs') :
    inp.num_reqs = counts.length := by
  have := he.layout.num_reqs
  have := he.fits
  omega

theorem getD_mem {i : Nat} (hi : i < counts.length) : counts.getD i 0 ∈ counts := by
  rw [List.getD_eq_getElem?_getD, List.getElem?_eq_getElem hi, Option.getD_some]
  exact List.getElem_mem hi

-- A write to the slot of a scheduled token comes from an earlier row, or is that of the token.
theorem lands_slot (he : Executes cfg d num_blocks so rs k k' counts inp rs')
    (h : Consistent cfg rs) (ha : Allocated cfg rs so) (hu : Undisturbed cfg rs counts)
    {i p j col : Nat} (hi : i < counts.length)
    (hp : p < rs.input_batch.num_computed_tokens_cpu i + counts.getD i 0)
    (hj : j < cfg.max_num_reqs)
    (hl : Lands cfg.block_size inp j col (p % cfg.block_size))
    (hcol : inp.page_table j col =
      BlockTable.entry rs.input_batch.block_table 0 i (p / cfg.block_size)) :
    (j < i ∧ rs.input_batch.num_computed_tokens_cpu i = 0) ∨
      (j = i ∧ rs.input_batch.num_computed_tokens_cpu i ≤ p ∧
        written_position cfg.block_size inp col (p % cfg.block_size) =
          p - rs.input_batch.num_computed_tokens_cpu i) := by
  have hlen := he.length
  have husers := he.users
  have husers_le := he.users_le
  have hnum := he.num_reqs
  have hlt := lands_lt hl
  have hg := he.layout.groups_pos
  have hc := he.layout.scheduled
  have hrow := rowAllocated h hg ha hc (show i < rs.input_batch.num_reqs by omega)
  have hslot : Slot cfg rs counts i (inp.page_table j col) (p % cfg.block_size) :=
    ⟨p, hp, hcol.symm, rfl⟩
  by_cases hstale : counts.length ≤ j
  · -- a row without a request
    rw [page_table_of_le he.layout he.fits hstale (by omega) hlt] at hslot hcol
    by_cases hone : counts.length = 1
    · rw [if_pos hone] at hcol
      exact absurd hcol.symm (hrow.null _ (hrow.covers p hp))
    · rw [if_neg hone] at hslot
      have hreach := (lands_iff he.layout he.fits (by omega) (by omega) _ _).mp hl
      rw [seq_lens_of_le he.layout he.fits hstale] at hreach
      exact absurd hslot (hu.rows (by omega) j (by omega) hj _ _ hreach i (by omega))
  · have hrow' := rowAllocated h hg ha hc (show j < rs.input_batch.num_reqs by omega)
    have hreach := (lands_iff he.layout he.fits (by omega) (by omega) _ _).mp hl
    rw [seq_lens_of_lt he.layout he.fits (by omega)] at hreach
    rw [page_table_of_lt he.layout he.fits (by omega) hlt] at hslot hcol
    by_cases hone : ∀ n ∈ counts, n ≤ 1
    · -- a decode step writes the last token of each row
      have hnj := hone _ (getD_mem (show j < counts.length by omega))
      have hni := hone _ (getD_mem hi)
      have hposj := hrow'.pos
      rw [show counts.getD j 0 = 1 by omega] at hreach
      obtain ⟨rfl, hoff⟩ := reaches_decode hone hreach
      have hcovers := hrow'.covers (rs.input_batch.num_computed_tokens_cpu j) (by omega)
      by_cases hij : j = i
      · subst hij
        have hdiv := hrow.inj _ hcovers _ (hrow.covers p hp) hcol
        have hself := Nat.div_add_mod p cfg.block_size
        rw [← hdiv, hoff, Nat.div_add_mod] at hself
        have hpad := he.layout.padded_eq_one
        rw [List.take_of_length_le he.fits] at hpad
        refine Or.inr ⟨rfl, by omega, ?_⟩
        unfold written_position
        rw [if_neg (by rw [hpad.mpr hone]; omega)]
        omega
      · exact absurd hcol (hrow'.exclusive i (by omega) hij _ hcovers (Nat.le_refl _) _
          (hrow.covers p hp))
    · -- a prefill writes every row from its start
      have hmany : ∃ n ∈ counts, 1 < n := by
        by_contra hno
        apply hone
        intro n hn
        by_contra hgt
        exact hno ⟨n, hn, by omega⟩
      have hzero := hu.from_start hmany i (by omega)
      by_cases hji : j < i
      · exact Or.inl ⟨hji, hzero⟩
      · have hown : col < BlockTable.count rs.input_batch.block_table 0 j := by
          by_contra hge
          exact hu.tails j (by omega) _ _ hreach (by omega) i (by omega) hslot
        by_cases hij : j = i
        · subst hij
          obtain rfl := hrow.inj _ hown _ (hrow.covers p hp) hcol
          have hpad := he.layout.padded_eq_one
          have hpos := he.layout.padded_pos
          rw [List.take_of_length_le he.fits] at hpad
          refine Or.inr ⟨rfl, by omega, ?_⟩
          unfold written_position
          rw [if_pos (by
            by_contra hle
            exact hone (hpad.mp (by omega))), hzero, Nat.mul_comm, Nat.div_add_mod]
          omega
        · have hzero' := hu.from_start hmany j (by omega)
          exact absurd hcol (hrow'.exclusive i (by omega) hij _ hown
            (by rw [hzero', Nat.zero_div]; omega) _ (hrow.covers p hp))

-- The row of a scheduled request writes each of its scheduled tokens.
theorem lands_own (he : Executes cfg d num_blocks so rs k k' counts inp rs')
    (h : Consistent cfg rs) (hu : Undisturbed cfg rs counts) {i p : Nat}
    (hi : i < counts.length) (hmax : counts.getD i 0 ≤ cfg.max_model_len)
    (hge : rs.input_batch.num_computed_tokens_cpu i ≤ p)
    (hp : p < rs.input_batch.num_computed_tokens_cpu i + counts.getD i 0) :
    Lands cfg.block_size inp i (p / cfg.block_size) (p % cfg.block_size) := by
  have hlen := he.length
  have husers := he.users
  have hbound := h.bound
  have hpad := he.layout.padded_eq_one
  have hpos := he.layout.padded_pos
  rw [List.take_of_length_le he.fits] at hpad
  by_cases hone : ∀ n ∈ counts, n ≤ 1
  · have hni := hone _ (getD_mem hi)
    obtain ⟨ws, hws⟩ := (Attention.attend_eq he.attends).2.1 i (by omega)
    obtain ⟨col, offset, hl⟩ := Attention.exists_lands (by rw [hpad.mpr hone]; omega) hws
    have hreach := (lands_iff he.layout he.fits (by omega) (by have := he.num_reqs; omega) _ _).mp hl
    rw [seq_lens_of_lt he.layout he.fits hi, show counts.getD i 0 = 1 by omega] at hreach
    obtain ⟨rfl, rfl⟩ := reaches_decode hone hreach
    rwa [show p = rs.input_batch.num_computed_tokens_cpu i by omega]
  · have hmany : ∃ n ∈ counts, 1 < n := by
      by_contra hno
      apply hone
      intro n hn
      by_contra hgt
      exact hno ⟨n, hn, by omega⟩
    have hzero := hu.from_start hmany i (by omega)
    have hle := he.layout.le_padded
    rw [List.take_of_length_le he.fits] at hle
    have hni := hle _ (getD_mem hi)
    have hself := Nat.div_add_mod p cfg.block_size
    rw [Nat.mul_comm] at hself
    unfold Lands
    rw [if_pos (by
      by_contra hle
      exact hone (hpad.mp (by omega))), he.layout.num_cols]
    refine ⟨?_, Nat.mod_lt _ cfg.block_size_pos, by omega⟩
    exact cfg.div_lt_num_blocks (getD_mem hi) (by omega) hmax

-- The slots of a row after the attention layer.
theorem attend_slot (he : Executes cfg d num_blocks so rs k k' counts inp rs')
    (h : Consistent cfg rs) (ha : Allocated cfg rs so) (hu : Undisturbed cfg rs counts)
    {i p : Nat} (hi : i < counts.length) (hmax : counts.getD i 0 ≤ cfg.max_model_len)
    (hp : p < rs.input_batch.num_computed_tokens_cpu i + counts.getD i 0) :
    k' (BlockTable.entry rs.input_batch.block_table 0 i (p / cfg.block_size),
        p % cfg.block_size) =
      if rs.input_batch.num_computed_tokens_cpu i ≤ p then
        d.kv k inp i (p - rs.input_batch.num_computed_tokens_cpu i)
      else k (BlockTable.entry rs.input_batch.block_table 0 i (p / cfg.block_size),
        p % cfg.block_size) := by
  obtain ⟨hlen, hws, rfl⟩ := Attention.attend_eq he.attends
  have hbound := h.bound
  have hrows := he.length
  -- the writes to the slot
  have hhits : ∀ j < inp.cache_position.length,
      ∀ w ∈ (row_writes num_blocks cfg.block_size inp (d.kv k inp) j).getD [],
      w.1 = (BlockTable.entry rs.input_batch.block_table 0 i (p / cfg.block_size),
        p % cfg.block_size) →
      (j < i ∧ rs.input_batch.num_computed_tokens_cpu i = 0) ∨
        (j = i ∧ rs.input_batch.num_computed_tokens_cpu i ≤ p ∧
          w.2 = d.kv k inp i (p - rs.input_batch.num_computed_tokens_cpu i)) := by
    intro j hj w hw haddr
    obtain ⟨ws, hws⟩ := hws j hj
    rw [hws, Option.getD_some] at hw
    obtain ⟨col, offset, hl, rfl⟩ := (Attention.mem_row_writes cfg.block_size_pos hws w).mp hw
    obtain ⟨hcol, hoff⟩ := Prod.mk.inj haddr
    subst hoff
    rcases lands_slot he h ha hu hi hp (by omega) hl hcol with hlt | ⟨rfl, hge, hpos⟩
    · exact Or.inl hlt
    · exact Or.inr ⟨rfl, hge, by rw [hpos]⟩
  split
  · rename_i hge
    have hl := lands_own he h hu hi hmax hge hp
    apply Writes.store_rows _ _ _ i (by omega)
    · obtain ⟨ws, hws⟩ := hws i (by omega)
      rw [hws, Option.getD_some]
      refine ⟨_, (Attention.mem_row_writes cfg.block_size_pos hws _).mpr ⟨_, _, hl, rfl⟩, ?_⟩
      rw [page_table_of_lt he.layout he.fits hi (lands_lt hl)]
    · intro w hw haddr
      rcases hhits i (by omega) w hw haddr with hlt | ⟨-, -, hval⟩
      · omega
      · exact hval
    · intro j hij hj w hw haddr
      have := hhits j hj w hw haddr
      omega
  · rename_i hge
    apply Writes.store_of_notMem
    intro w hw haddr
    obtain ⟨j, hj, hw⟩ := List.mem_flatMap.mp hw
    have := hhits j (List.mem_range.mp hj) w hw haddr
    omega

theorem Executes.places (he : Executes cfg d num_blocks so rs k k' counts inp rs')
    (h : Consistent cfg rs) (ha : Allocated cfg rs so) (hu : Undisturbed cfg rs counts)
    {i n : Nat} {id : ReqId} {st : CachedRequestState} {blocks : List Nat}
    (hrow : InRow rs i id st blocks) (hn : so.num_scheduled_tokens.lookup id = some n)
    (hmax : n ≤ cfg.max_model_len) :
    (∀ p, st.num_computed_tokens ≤ p → p < st.num_computed_tokens + n →
      ∃ blk, blocks[p / cfg.block_size]? = some blk ∧
        k' (blk, p % cfg.block_size) = d.kv k inp i (p - st.num_computed_tokens)) ∧
    ∀ p < st.num_computed_tokens, ∃ blk, blocks[p / cfg.block_size]? = some blk ∧
      k' (blk, p % cfg.block_size) = k (blk, p % cfg.block_size) := by
  have hg := he.layout.groups_pos
  have hc := he.layout.scheduled
  have hlt := (row_occupied h.full).mpr ⟨id, hrow.req_id⟩
  have hlen := he.length
  obtain ⟨st', hst', hcomputed, hblocks⟩ := row_blocks h hg hrow.req_id
  obtain rfl := Option.some.inj (hst'.symm.trans hrow.state)
  obtain rfl := Option.some.inj (hblocks.symm.trans hrow.blocks)
  have hcount : counts.getD i 0 = n := by
    obtain ⟨id', n', hid', hn', hget⟩ := (getElem?_scheduled_counts hc).2 i (by omega)
    rw [Nat.zero_add] at hid'
    obtain rfl : id' = id := Option.some.inj (Option.some.inj (hid'.symm.trans hrow.req_id))
    obtain rfl := Option.some.inj (hn'.symm.trans hn)
    rw [List.getD_eq_getElem?_getD, hget]
    rfl
  have hcovers := (rowAllocated h hg ha hc hlt).covers
  have hslot : ∀ p < rs.input_batch.num_computed_tokens_cpu i + counts.getD i 0, _ :=
    fun p hp => attend_slot he h ha hu (i := i) (by omega) (by omega) hp
  rw [hcount, hcomputed] at hcovers hslot
  refine ⟨fun p hge hp => ?_, fun p hp => ?_⟩
  · refine ⟨_, getElem?_blocks (hcovers p hp), ?_⟩
    rw [hslot p hp, if_pos hge]
  · refine ⟨_, getElem?_blocks (hcovers p (by omega)), ?_⟩
    rw [hslot p (by omega), if_neg (by omega)]

-- In every run, a step that starts every prefill from the beginning, and whose stale rows lead
-- to no slot in use, stores the keys and values where the block tables say.
theorem places_kv {memory : InputBatch T} {k₀ : KVCache V}
    (h : Run.Reachable (step cfg sets mode (d.model cfg num_blocks)) Allowed (init memory, k₀) s)
    (hso : s.1.scheduler_output = some so)
    (hc : scheduled_counts s.1.input_batch so 0 = some counts)
    (hstep : step cfg sets mode (d.model cfg num_blocks) s (.sample_tokens grammar_output) =
      some s')
    (ha : Allocated cfg s.1 so) (hu : Undisturbed cfg s.1 counts) : PlacesKV cfg d so s s' := by
  have ht := tracked_reachable h
  obtain ⟨inp, rs', he⟩ := executes_of_step ht hso hc hstep
  have ha' : Allocated cfg { s.1 with scheduler_output := none } so :=
    ⟨ha.pos, fun i id st blocks n hr => ha.covers i id st blocks n ⟨hr.1, hr.2, hr.3⟩,
      fun i id st blocks hr => ha.nodup i id st blocks ⟨hr.1, hr.2, hr.3⟩,
      fun i id st blocks hr => ha.null i id st blocks ⟨hr.1, hr.2, hr.3⟩,
      fun i id st blocks i' id' st' blocks' hr hr' => ha.exclusive i id st blocks i' id' st'
        blocks' ⟨hr.1, hr.2, hr.3⟩ ⟨hr'.1, hr'.2, hr'.3⟩⟩
  have hu' : Undisturbed cfg { s.1 with scheduler_output := none } counts :=
    ⟨hu.from_start, hu.rows, hu.tails⟩
  intro inp' rs'' hprep i id st blocks n hrow hn
  cases he.prepared.symm.trans hprep
  have hmax : n ≤ cfg.max_model_len := by
    have hfits := ht.fits id st hrow.state
    have hpending := (ht.pending so hso).2 id st n hrow.state hn
    omega
  exact he.places ht.idle.toConsistent ha' hu' ⟨hrow.1, hrow.2, hrow.3⟩ hn hmax

end Steps

section Example

-- A batch with a single request.
omit [BlockTable T] in
theorem allocated_single {cfg : RunnerConfig} {rs : Runner T} {so : SchedulerOutput} (id : ReqId)
    (c n : Nat) (blocks : List Nat) (hids : rs.input_batch.req_ids = [some id])
    (hst : (rs.requests.lookup id).map (fun st => (st.num_computed_tokens, st.block_ids[0]?)) =
      some (c, some blocks))
    (hn : so.num_scheduled_tokens.entries = [⟨id, n⟩]) (hpos : 0 < n)
    (hcovers : c + n ≤ blocks.length * cfg.block_size) (hnodup : blocks.Nodup)
    (hnull : 0 ∉ blocks) : Allocated cfg rs so := by
  have hrow : ∀ i id' st' blocks', InRow rs i id' st' blocks' →
      i = 0 ∧ id' = id ∧ st'.num_computed_tokens = c ∧ blocks' = blocks := by
    intro i id' st' blocks' hr
    have hid := hr.req_id
    rw [hids, List.getElem?_singleton] at hid
    split at hid
    · cases hid
      rw [hr.state, Option.map_some, hr.blocks] at hst
      cases hst
      exact ⟨by assumption, rfl, rfl, rfl⟩
    · cases hid
  have hlookup : ∀ id' n', so.num_scheduled_tokens.lookup id' = some n' → n' = n := by
    intro id' n' hl
    have hm := AList.mem_lookup_iff.mp hl
    rw [hn, List.mem_singleton] at hm
    cases hm
    rfl
  refine ⟨fun id' n' hl => ?_, fun i id' st' blocks' n' hr hl => ?_, fun i id' st' blocks' hr => ?_,
    fun i id' st' blocks' hr => ?_, fun i id₁ st₁ bl₁ i' id₂ st₂ bl₂ hr hr' hne => ?_⟩
  · rwa [hlookup _ _ hl]
  · obtain ⟨-, -, rfl, rfl⟩ := hrow _ _ _ _ hr
    rwa [hlookup _ _ hl]
  · obtain ⟨-, -, -, rfl⟩ := hrow _ _ _ _ hr
    exact hnodup
  · obtain ⟨-, -, -, rfl⟩ := hrow _ _ _ _ hr
    exact hnull
  · have h1 := (hrow _ _ _ _ hr).1
    have h2 := (hrow _ _ _ _ hr').1
    omega

-- A decoder whose keys and values tell the positions.
def positions : Decoder Nat Unit Unit where
  kv := fun _ inp row col => inp.position_ids row col + 1
  hidden := fun _ _ _ _ => ()
  sample := constant.sample
  gather_logprobs := constant.gather_logprobs

-- Two requests with the same prompt, one after the other. The second one finds the first block
-- of the other one in the prefix cache, and starts behind it.
def longPrompt : SchedulerOutput := prefill [newReq "A" (List.replicate 34 7) [1, 2]] []

def cachedPrefix : SchedulerOutput :=
  { prefill [{ newReq "B" (List.replicate 34 7) [1, 3] with num_computed_tokens := 32 }] ["A"] with
    num_scheduled_tokens := [⟨"B", 2⟩].toAList
    total_num_scheduled_tokens := 2 }

def afterHit : Runner DenseTable × KVCache Nat :=
  (Run.exec (step twoRows .asListed .raise (positions.model twoRows 8)) Allowed
    (init oneGroup, fun _ => 0)
    [.execute_model longPrompt, .sample_tokens none, .execute_model cachedPrefix]).get (by decide)

theorem afterHit_reachable :
    Run.Reachable (step twoRows .asListed .raise (positions.model twoRows 8)) Allowed
      (init oneGroup, fun _ => 0) afterHit :=
  .of_exec [.execute_model longPrompt, .sample_tokens none, .execute_model cachedPrefix] .start
    (Option.some_get _).symm

def afterFill : Runner DenseTable × KVCache Nat :=
  (step twoRows .asListed .raise (positions.model twoRows 8) afterHit (.sample_tokens none)).get
    (by decide)

def hitInputs : ModelInputs × Runner DenseTable :=
  (prepare_inputs twoRows { afterHit.1 with scheduler_output := none } cachedPrefix 0).get
    (by decide)

theorem hitInputs_eq : prepare_inputs twoRows { afterHit.1 with scheduler_output := none }
    cachedPrefix 0 = some (hitInputs.1, hitInputs.2) := by
  rw [Prod.mk.eta, hitInputs, Option.some_get]

set_option maxRecDepth 4000 in
theorem unwritten : afterFill.2 (3, 0) = 0 := by decide

set_option maxRecDepth 4000 in
theorem rightKV : positions.kv afterHit.2 hitInputs.1 0 0 = 33 := by decide

-- The token at position 32 belongs in block 3, which is not written; the cached block 1 is.
theorem afterHit_not_placesKV :
    Run.Reachable (step twoRows .asListed .raise (positions.model twoRows 8)) Allowed
      (init oneGroup, fun _ => 0) afterHit ∧
    afterHit.1.scheduler_output = some cachedPrefix ∧
    step twoRows .asListed .raise (positions.model twoRows 8) afterHit (.sample_tokens none) =
      some afterFill ∧
    Allocated twoRows afterHit.1 cachedPrefix ∧
    ¬PlacesKV twoRows positions cachedPrefix afterHit afterFill := by
  refine ⟨afterHit_reachable, rfl, (Option.some_get _).symm, ?_, fun h => ?_⟩
  · apply allocated_single "B" 32 2 [1, 3]
    all_goals decide
  · obtain ⟨st, hst⟩ := Option.isSome_iff_exists.mp
      (show (afterHit.1.requests.lookup "B").isSome by decide)
    have hstate : (afterHit.1.requests.lookup "B").map
        (fun st => (st.num_computed_tokens, st.block_ids[0]?)) = some (32, some [1, 3]) := by decide
    rw [hst, Option.map_some, Option.some.injEq, Prod.mk.injEq] at hstate
    have hid : afterHit.1.input_batch.req_ids[0]? = some (some "B") := by decide
    have hn : cachedPrefix.num_scheduled_tokens.lookup "B" = some 2 := by decide
    obtain ⟨hstored, -⟩ := h hitInputs.1 hitInputs.2 hitInputs_eq 0 "B" st [1, 3] 2
      ⟨hid, hst, hstate.2⟩ hn
    obtain ⟨blk, hblk, hkv⟩ := hstored 32 (by omega) (by omega)
    cases hblk
    rw [hstate.1, show twoRows.block_size = 32 from rfl, unwritten] at hkv
    cases hkv.trans rightKV

-- Without a cached prefix the tokens of the prompt are stored in its blocks.
def afterPrompt : Runner DenseTable × KVCache Nat :=
  (Run.exec (step twoRows .asListed .raise (positions.model twoRows 8)) Allowed
    (init oneGroup, fun _ => 0) [.execute_model longPrompt]).get (by decide)

theorem afterPrompt_reachable :
    Run.Reachable (step twoRows .asListed .raise (positions.model twoRows 8)) Allowed
      (init oneGroup, fun _ => 0) afterPrompt :=
  .of_exec [.execute_model longPrompt] .start (Option.some_get _).symm

def afterSample : Runner DenseTable × KVCache Nat :=
  (step twoRows .asListed .raise (positions.model twoRows 8) afterPrompt (.sample_tokens none)).get
    (by decide)

theorem undisturbed_afterPrompt : Undisturbed twoRows afterPrompt.1 [34] := by
  have hnum : afterPrompt.1.input_batch.num_reqs = 1 := by decide
  refine ⟨fun _ i hi => ?_, fun hne => absurd hnum hne, fun row hrow col offset hreach hcount => ?_⟩
  · obtain rfl : i = 0 := by omega
    decide
  · obtain rfl : row = 0 := by omega
    unfold Reaches at hreach
    rw [if_neg (by decide)] at hreach
    have hpadded := hreach.2.2 64 (by decide)
    rw [show twoRows.block_size = 32 from rfl] at hpadded
    have htwo : BlockTable.count afterPrompt.1.input_batch.block_table 0 0 = 2 := by decide
    omega

theorem afterPrompt_placesKV : PlacesKV twoRows positions longPrompt afterPrompt afterSample := by
  apply places_kv afterPrompt_reachable rfl (by decide) (Option.some_get _).symm ?_
    undisturbed_afterPrompt
  apply allocated_single "A" 0 34 [1, 2]
  all_goals decide

end Example

end TTXla.VllmTT.Runner
