import TTXla.VllmTT.Attention
import TTXla.VllmTT.ModelRunner.Split

-- Where a step writes to the paged KV cache.
namespace TTXla.VllmTT.Runner

open Attention (attend row_writes Lands)

variable {T : Type} [BlockTable T] {V H LP : Type}

-- The column and the offset through which a row of a step is written, from the counts of the
-- step and the length of the sequence in the row.
def Reaches (cfg : RunnerConfig) (counts : List Nat) (seq_len col offset : Nat) : Prop :=
  if ∀ n ∈ counts, n ≤ 1 then
    tensorIndex .raise (cfg.num_blocks counts) (((seq_len : Int) - 1) / cfg.block_size) =
      some col ∧ offset = (((seq_len : Int) - 1) % cfg.block_size).toNat
  else
    col < cfg.num_blocks counts ∧ offset < cfg.block_size ∧
      ∀ padded_len ∈ counts.max?.bind (get_padded_token_len cfg.num_tokens_paddings),
        col * cfg.block_size + offset < padded_len

-- The block is the null block, or belongs to the request in the row.
def OwnsBlock (rs : Runner T) (row blk : Nat) : Prop :=
  blk = 0 ∨ ∃ id st blocks, rs.input_batch.req_ids[row]? = some (some id) ∧
    rs.requests.lookup id = some st ∧ st.block_ids[0]? = some blocks ∧ blk ∈ blocks

-- An allocation of the blocks to all live requests, of which those in the batch know theirs.
structure Allocation (rs : Runner T) (alloc : ReqId → Finset Nat) : Prop where
  owns : ∀ (id : ReqId) (i : Nat) st blocks, rs.input_batch.req_ids[i]? = some (some id) →
    rs.requests.lookup id = some st → st.block_ids[0]? = some blocks → ∀ blk ∈ blocks, blk ∈ alloc id
  exclusive : ∀ id id' blk, blk ∈ alloc id → blk ∈ alloc id' → id = id'
  null : ∀ id, 0 ∉ alloc id

-- Every write of every row of a step goes to a block of the request in that row or to the
-- null block, and so never to a block of another live request.
def WritesStay (cfg : RunnerConfig) (mode : OutOfRange) (d : Decoder V H LP) (num_blocks : Nat)
    (so : SchedulerOutput) (s : Runner T × KVCache V) : Prop :=
  ∀ (grammar_output : Option GrammarOutput) (rs : Runner T) (k : KVCache V) (start_index : Nat),
    InLoop cfg mode (d.model cfg num_blocks) so grammar_output
      { s.1 with scheduler_output := none } s.2 rs k start_index →
    ∀ (inp : ModelInputs) (rs' : Runner T),
      prepare_inputs cfg rs so start_index = some (inp, rs') →
      ∀ row < inp.cache_position.length, ∀ ws,
        row_writes num_blocks cfg.block_size inp (d.kv k inp) row = some ws → ∀ w ∈ ws,
          OwnsBlock rs (start_index + row) w.1.1 ∧
          ∀ alloc, Allocation rs alloc → ∀ id, w.1.1 ∈ alloc id →
            rs.input_batch.req_ids[start_index + row]? = some (some id)

-- What earlier steps left in the page table, where the step reaches it. A step with a single
-- request clears the rows after it.
structure CleanTable (cfg : RunnerConfig) (rs : Runner T) (counts : List Nat) : Prop where
  rows : rs.input_batch.num_reqs ≠ 1 → ∀ row, rs.input_batch.num_reqs ≤ row →
    row < cfg.max_num_reqs → ∀ col offset,
    Reaches cfg counts (rs.seq_lens_cpu row) col offset → rs.block_table_cpu row col = 0
  tails : ∀ row < rs.input_batch.num_reqs, ∀ col offset,
    Reaches cfg counts (rs.input_batch.num_computed_tokens_cpu row + counts.getD row 0) col
      offset →
    BlockTable.count rs.input_batch.block_table 0 row ≤ col →
    BlockTable.entry rs.input_batch.block_table 0 row col = 0 ∨
      BlockTable.entry rs.input_batch.block_table 0 row col ∈
        BlockTable.blocks rs.input_batch.block_table 0 row

omit [BlockTable T] in
theorem OwnsBlock.unique {rs : Runner T} {row blk : Nat} (h : OwnsBlock rs row blk)
    {alloc : ReqId → Finset Nat} (ha : Allocation rs alloc) {id : ReqId} (hid : blk ∈ alloc id) :
    rs.input_batch.req_ids[row]? = some (some id) := by
  rcases h with rfl | ⟨id', st, blocks, hrow, hst, hblocks, hmem⟩
  · exact absurd hid (ha.null id)
  · obtain rfl := ha.exclusive _ _ _ (ha.owns id' row st blocks hrow hst hblocks _ hmem) hid
    exact hrow

section Layout

variable {cfg : RunnerConfig} {so : SchedulerOutput} {rs rs' : Runner T} {inp : ModelInputs}
  {counts : List Nat} {limit : List Nat → Nat}

theorem tensorIndex_raise_lt {len : Nat} {i : Int} {col : Nat}
    (h : tensorIndex .raise len i = some col) : col < len := by
  simp only [tensorIndex] at h
  generalize (if i < 0 then i + (len : Int) else i) = j at h
  by_cases hj : 0 ≤ j ∧ j < len
  · rw [if_pos hj, Option.some.injEq] at h
    omega
  · rw [if_neg hj] at h
    cases h

theorem lands_lt {block_size row col offset : Nat} (h : Lands block_size inp row col offset) :
    col < inp.num_cols := by
  unfold Lands at h
  split at h
  · exact h.1
  · exact tensorIndex_raise_lt h.1

-- The rows of the step's buffers, when one execution takes all the requests.
theorem lands_iff (h : PreparedUpto cfg limit rs so 0 inp rs' counts)
    (hle : counts.length ≤ limit counts) {row : Nat} (hrow : row < inp.cache_position.length)
    (hone : ¬(inp.num_reqs = 1 ∧ 0 < row)) (col offset : Nat) :
    Lands cfg.block_size inp row col offset ↔
      Reaches cfg counts (rs'.seq_lens_cpu row) col offset := by
  have htake := List.take_of_length_le hle
  have hcols : inp.num_cols = cfg.num_blocks counts := h.num_cols
  have hone' := h.padded_eq_one
  have hpos := h.padded_pos
  rw [htake] at hone'
  have hpos_eq : inp.cache_position.getD row 0 = (rs'.seq_lens_cpu row : Int) - 1 := by
    have hc := h.cache_position
    rw [hc, List.length_map, List.length_range] at hrow
    rw [hc, List.getD_eq_getElem?_getD, List.getElem?_map, List.getElem?_range hrow]
    simp only [Option.map_some, Option.getD_some]
    rw [if_neg hone]
  obtain ⟨m, hm, hp⟩ := h.padded_max
  rw [htake] at hm
  unfold Lands Reaches
  by_cases hp1 : 1 < inp.padded_len
  · rw [if_pos hp1, if_neg (by rw [← hone']; omega), hm, Option.bind_some, hp, hcols]
    simp
  · rw [if_neg hp1, if_pos (by rw [← hone']; omega), hpos_eq, hcols]

theorem seq_lens_of_lt (h : PreparedUpto cfg limit rs so 0 inp rs' counts)
    (hle : counts.length ≤ limit counts) {row : Nat} (hrow : row < counts.length) :
    rs'.seq_lens_cpu row =
      rs.input_batch.num_computed_tokens_cpu row + counts.getD row 0 := by
  rw [h.runner, List.take_of_length_le hle]
  simp [fill_buffers, hrow]

theorem seq_lens_of_le (h : PreparedUpto cfg limit rs so 0 inp rs' counts)
    (hle : counts.length ≤ limit counts) {row : Nat} (hrow : counts.length ≤ row) :
    rs'.seq_lens_cpu row = rs.seq_lens_cpu row := by
  rw [h.runner, List.take_of_length_le hle]
  simp [fill_buffers, hrow]

theorem page_table_of_lt (h : PreparedUpto cfg limit rs so 0 inp rs' counts)
    (hle : counts.length ≤ limit counts) {row col : Nat} (hrow : row < counts.length)
    (hcol : col < inp.num_cols) :
    inp.page_table row col = BlockTable.entry rs.input_batch.block_table 0 row col := by
  rw [h.page_table, h.runner, List.take_of_length_le hle]
  simp [fill_buffers, hrow, hcol]

theorem page_table_of_le (h : PreparedUpto cfg limit rs so 0 inp rs' counts)
    (hle : counts.length ≤ limit counts) {row col : Nat} (hrow : counts.length ≤ row)
    (hlimit : row < inp.num_users) (hcol : col < inp.num_cols) :
    inp.page_table row col = if counts.length = 1 then 0 else rs.block_table_cpu row col := by
  rw [h.page_table, h.runner, List.take_of_length_le hle]
  simp [fill_buffers, Nat.not_lt.mpr hrow, hlimit, hcol]

end Layout

section Steps

variable {cfg : RunnerConfig} {sets : SetOrder} {mode : OutOfRange} {d : Decoder V H LP}
  {num_blocks : Nat} {so : SchedulerOutput} {grammar_output : Option GrammarOutput}
  {rs : Runner T} {k : KVCache V} {s s' : Runner T × KVCache V} {counts : List Nat}

-- What is known of the single execution of a step that succeeds.
structure Executes (cfg : RunnerConfig) (d : Decoder V H LP) (num_blocks : Nat)
    (so : SchedulerOutput) (rs : Runner T) (k k' : KVCache V) (counts : List Nat)
    (inp : ModelInputs) (rs' : Runner T) : Prop where
  prepared : prepare_inputs cfg rs so 0 = some (inp, rs')
  layout : Prepared cfg rs so 0 inp rs' counts
  fits : counts.length ≤ cfg.num_reqs_limit counts
  length : counts.length = rs.input_batch.num_reqs
  users : inp.cache_position.length = cfg.max_num_reqs
  users_le : cfg.max_num_reqs ≤ inp.num_users
  attends : attend cfg num_blocks inp (d.kv k inp) k = some k'

-- With this attention layer a step is never split: it asserts one user for each row.
theorem executes_of_chunk (h : Consistent cfg rs)
    (hc : scheduled_counts rs.input_batch so 0 = some counts) {e : Execution LP}
    {rs₁ : Runner T} {k₁ : KVCache V}
    (hchunk : execute_chunk cfg mode (d.model cfg num_blocks) so grammar_output rs k 0 =
      some (e, rs₁, k₁)) : ∃ inp rs', Executes cfg d num_blocks so rs k k₁ counts inp rs' := by
  obtain ⟨⟨inp, rs'⟩, hprep, hchunk⟩ := Option.bind_eq_some_iff.mp hchunk
  obtain ⟨⟨cache', hidden⟩, hforward, hchunk⟩ := Option.bind_eq_some_iff.mp hchunk
  obtain ⟨picked, -, hchunk⟩ := Option.bind_eq_some_iff.mp hchunk
  obtain ⟨⟨si, rs₂⟩, -, hchunk⟩ := Option.bind_eq_some_iff.mp hchunk
  cases hchunk
  obtain ⟨cache'', hattend, he⟩ := Option.map_eq_some_iff.mp hforward
  cases he
  obtain ⟨hlen, -, -⟩ := Attention.attend_eq hattend
  obtain ⟨all_counts, hp⟩ := prepare_inputs_spec cfg hprep
  obtain rfl : counts = all_counts := Option.some.inj (hc.symm.trans hp.scheduled)
  have hnum : counts.length = rs.input_batch.num_reqs := by
    have := (getElem?_scheduled_counts hc).1
    omega
  have hbound := h.bound
  have husers := hp.num_users
  have hcache := hp.cache_position
  have hle : cfg.max_num_reqs ≤ inp.num_users := by
    rw [hcache, List.length_map, List.length_range] at hlen
    omega
  exact ⟨inp, rs', hprep, hp, by omega, hnum, hlen.symm, hle, hattend⟩

theorem executes_of_step (h : Tracked cfg s.1) (hso : s.1.scheduler_output = some so)
    (hc : scheduled_counts s.1.input_batch so 0 = some counts)
    (hstep : step cfg sets mode (d.model cfg num_blocks) s (.sample_tokens grammar_output) =
      some s') : ∃ inp rs',
    Executes cfg d num_blocks so { s.1 with scheduler_output := none } s.2 s'.2 counts inp rs' := by
  obtain ⟨⟨out, rs₁, k₁⟩, h1, hs'⟩ := Option.bind_eq_some_iff.mp hstep
  cases hs'
  unfold sample_tokens at h1
  rw [hso] at h1
  obtain ⟨⟨out, rs₂, k₂⟩, h2, hs'⟩ := Option.bind_eq_some_iff.mp h1
  cases hs'
  obtain ⟨hpos, es, rs₃, h3, -⟩ := sample_scheduled_eq h2
  have hidle := h.idle
  generalize hrs : { s.1 with scheduler_output := none } = rs₀ at *
  have hb : rs₀.input_batch = s.1.input_batch := by rw [← hrs]
  rw [← hb] at hpos hc h3
  -- the first execution succeeds, so that it takes all the rows
  obtain ⟨fuel, e, es', rs₄, k₄, -, hchunk, -⟩ := execute_chunks_of_lt _ hpos h3
  obtain ⟨inp, rs', he⟩ := executes_of_chunk hidle.toConsistent hc hchunk
  obtain ⟨e', -, -, hsingle⟩ := single_execution hc he.fits hpos h3
  exact executes_of_chunk hidle.toConsistent hc hsingle

-- The request in a row and its blocks.
theorem row_blocks (h : Consistent cfg rs) (hg : 0 < BlockTable.groups rs.input_batch.block_table)
    {id : ReqId} {i : Nat} (hid : rs.input_batch.req_ids[i]? = some (some id)) :
    ∃ st, rs.requests.lookup id = some st ∧
      rs.input_batch.num_computed_tokens_cpu i = st.num_computed_tokens ∧
      st.block_ids[0]? = some (BlockTable.blocks rs.input_batch.block_table 0 i) := by
  obtain ⟨st, hst, ha⟩ := h.rows id (rs.input_batch.row i) (by
    unfold InputBatch.rowOf
    rw [(h.full.indexed.inverse id i).mpr hid]
    rfl)
  have hblocks : (rs.input_batch.row i).blocks 0 =
      BlockTable.blocks rs.input_batch.block_table 0 i := by
    simp only [InputBatch.row, hg, ite_true]
  exact ⟨st, hst, ha.num_computed_tokens, by rw [← hblocks]; exact ha.blocks 0 hg⟩

omit [BlockTable T] in
theorem row_occupied (h : rs.input_batch.Full) {i : Nat} :
    i < rs.input_batch.num_reqs ↔ ∃ id, rs.input_batch.req_ids[i]? = some (some id) := by
  constructor
  · intro hi
    obtain ⟨id, hid, -⟩ := h.exists_id hi
    exact ⟨id, hid⟩
  · rintro ⟨id, hid⟩
    exact h.lt_num_reqs ((h.indexed.inverse id i).mpr hid)

theorem entry_mem_blocks {t : T} {row col : Nat} (h : col < BlockTable.count t 0 row) :
    BlockTable.entry t 0 row col ∈ BlockTable.blocks t 0 row :=
  List.mem_map.mpr ⟨col, List.mem_range.mpr h, rfl⟩

-- The rows of the page table that a step reaches: its own blocks, and what is left of
-- earlier steps.
theorem ownsBlock_iff {inp : ModelInputs} {rs' : Runner T}
    {k' : KVCache V} (he : Executes cfg d num_blocks so rs k k' counts inp rs')
    (h : Consistent cfg rs) :
    (∀ row < inp.cache_position.length, ∀ col offset, Lands cfg.block_size inp row col offset →
      OwnsBlock rs row (inp.page_table row col)) ↔ CleanTable cfg rs counts := by
  have hp := he.layout
  have hlen := he.length
  have hbound := h.bound
  have husers := he.users
  have husers_le := he.users_le
  have hnum : inp.num_reqs = counts.length := by
    have := hp.num_reqs
    have := he.fits
    omega
  constructor
  · intro hown
    refine ⟨fun hne row hlo hhi col offset hreach => ?_, fun row hrow col offset hreach hcount => ?_⟩
    · rw [← seq_lens_of_le hp he.fits (by omega)] at hreach
      have hlands := (lands_iff hp he.fits (by omega) (by omega) col offset).mpr hreach
      have hb := hown row (by omega) col offset hlands
      rw [page_table_of_le hp he.fits (by omega) (by omega) (lands_lt hlands),
        if_neg (by omega)] at hb
      rcases hb with hb | ⟨id, st, blocks, hid, -⟩
      · exact hb
      · have := (row_occupied h.full).mpr ⟨id, hid⟩
        omega
    · rw [← seq_lens_of_lt hp he.fits (by omega)] at hreach
      have hlands := (lands_iff hp he.fits (by omega) (by omega) col offset).mpr hreach
      have hb := hown row (by omega) col offset hlands
      rw [page_table_of_lt hp he.fits (by omega) (lands_lt hlands)] at hb
      rcases hb with hb | ⟨id, st, blocks, hid, hst, hblocks, hmem⟩
      · exact Or.inl hb
      · obtain ⟨st', hst', -, hblocks'⟩ := row_blocks h hp.groups_pos hid
        obtain rfl := Option.some.inj (hst.symm.trans hst')
        obtain rfl := Option.some.inj (hblocks.symm.trans hblocks')
        exact Or.inr hmem
  · intro hclean row hrow col offset hlands
    have hcol := lands_lt hlands
    by_cases hin : row < counts.length
    · rw [page_table_of_lt hp he.fits hin hcol]
      have hreach := (lands_iff hp he.fits hrow (by omega) col offset).mp hlands
      rw [seq_lens_of_lt hp he.fits hin] at hreach
      obtain ⟨id, hid⟩ := (row_occupied h.full).mp (show row < rs.input_batch.num_reqs by omega)
      obtain ⟨st, hst, -, hblocks⟩ := row_blocks h hp.groups_pos hid
      by_cases hcount : col < BlockTable.count rs.input_batch.block_table 0 row
      · exact Or.inr ⟨id, st, _, hid, hst, hblocks, entry_mem_blocks hcount⟩
      · rcases hclean.tails row (by omega) col offset hreach (by omega) with h0 | hmem
        · exact Or.inl h0
        · exact Or.inr ⟨id, st, _, hid, hst, hblocks, hmem⟩
    · rw [page_table_of_le hp he.fits (by omega) (by omega) hcol]
      left
      split
      · rfl
      · have hreach := (lands_iff hp he.fits hrow (by omega) col offset).mp hlands
        rw [seq_lens_of_le hp he.fits (by omega)] at hreach
        exact hclean.rows (by omega) row (by omega) (by omega) col offset hreach

-- In every run, the writes of a step stay within the blocks of its requests exactly when the
-- rows and the tails that it reaches beyond them are clear.
theorem writesStay_iff {memory : InputBatch T} {k₀ : KVCache V}
    (h : Run.Reachable (step cfg sets mode (d.model cfg num_blocks)) Allowed (init memory, k₀) s)
    (hso : s.1.scheduler_output = some so)
    (hc : scheduled_counts s.1.input_batch so 0 = some counts)
    (hstep : step cfg sets mode (d.model cfg num_blocks) s (.sample_tokens grammar_output) =
      some s') :
    WritesStay cfg mode d num_blocks so s ↔ CleanTable cfg s.1 counts := by
  have ht := tracked_reachable h
  obtain ⟨inp, rs', he⟩ := executes_of_step ht hso hc hstep
  have hown := ownsBlock_iff he ht.idle.toConsistent
  have hclean : CleanTable cfg { s.1 with scheduler_output := none } counts ↔
      CleanTable cfg s.1 counts := ⟨fun h => ⟨h.rows, h.tails⟩, fun h => ⟨h.rows, h.tails⟩⟩
  rw [← hclean, ← hown]
  constructor
  · intro hstay row hrow col offset hlands
    obtain ⟨ws, hws⟩ := (Attention.attend_eq he.attends).2.1 row hrow
    have hmem := (Attention.mem_row_writes cfg.block_size_pos hws _).mpr
      ⟨col, offset, hlands, rfl⟩
    have hb := (hstay grammar_output _ _ 0 .start inp rs' he.prepared row hrow ws hws _ hmem).1
    rwa [Nat.zero_add] at hb
  · intro hall grammar rs k start_index hloop inp' rs'' hprep row hrow ws hws w hw
    obtain ⟨rfl, rfl, rfl⟩ := hloop.first hc he.fits hprep
    have heq := he.prepared.symm.trans hprep
    cases heq
    obtain ⟨col, offset, hlands, rfl⟩ := (Attention.mem_row_writes cfg.block_size_pos hws w).mp hw
    rw [Nat.zero_add]
    have hb := hall row hrow col offset hlands
    exact ⟨hb, fun alloc ha id hid => hb.unique ha hid⟩

end Steps

section Example

-- A decoder that computes nothing.
def idle : Decoder Unit Unit Unit where
  kv := fun _ _ _ _ => ()
  hidden := fun _ _ _ _ => ()
  sample := constant.sample
  gather_logprobs := constant.gather_logprobs

-- Three requests are prefilled; then one of them finishes, and two new ones are prefilled, the
-- first in the block that has become free.
def threePrompts : SchedulerOutput :=
  prefill [newReq "A" [7, 8] [1], newReq "B" [9, 9] [2], newReq "C" [5, 6] [3]] []

def twoMore : SchedulerOutput := prefill [newReq "D" [4, 4] [3], newReq "E" [2, 2] [4]] ["C"]

def afterShrink : Runner DenseTable × KVCache Unit :=
  (Run.exec (step threeRows .asListed .raise (idle.model threeRows 8)) Allowed
    (init oneGroup, fun _ => ())
    [.execute_model threePrompts, .sample_tokens none, .execute_model twoMore]).get (by decide)

theorem afterShrink_reachable :
    Run.Reachable (step threeRows .asListed .raise (idle.model threeRows 8)) Allowed
      (init oneGroup, fun _ => ()) afterShrink :=
  .of_exec [.execute_model threePrompts, .sample_tokens none, .execute_model twoMore] .start
    (Option.some_get _).symm

def shrunk : ModelInputs × Runner DenseTable :=
  (prepare_inputs threeRows { afterShrink.1 with scheduler_output := none } twoMore 0).get
    (by decide)

theorem shrunk_eq : prepare_inputs threeRows { afterShrink.1 with scheduler_output := none }
    twoMore 0 = some (shrunk.1, shrunk.2) := by
  rw [Prod.mk.eta, shrunk, Option.some_get]

def lastRow : List ((Nat × Nat) × Unit) :=
  (row_writes 8 threeRows.block_size shrunk.1 (fun _ _ => ()) 2).get (by decide)

-- Row 2 holds no request any more, and writes to block 3, which belongs to D in row 0.
theorem afterShrink_not_writesStay :
    Run.Reachable (step threeRows .asListed .raise (idle.model threeRows 8)) Allowed
      (init oneGroup, fun _ => ()) afterShrink ∧
    afterShrink.1.scheduler_output = some twoMore ∧
    ¬WritesStay threeRows .raise idle 8 twoMore afterShrink := by
  refine ⟨afterShrink_reachable, rfl, fun h => ?_⟩
  have hw : ((3, 0), ()) ∈ lastRow := by decide
  obtain ⟨hown, -⟩ := h none _ _ 0 .start _ _ shrunk_eq 2 (by decide) lastRow
    (Option.some_get _).symm _ hw
  rcases hown with h0 | ⟨id, st, blocks, hid, -⟩
  · cases h0
  · have hnone : afterShrink.1.input_batch.req_ids[2]? = none := by decide
    cases hnone.symm.trans hid

-- A single prompt writes to its own block only.
def onePending : Runner DenseTable × KVCache Unit :=
  (Run.exec (step twoRows .asListed .raise (idle.model twoRows 8)) Allowed
    (init oneGroup, fun _ => ()) [.execute_model onePrompt]).get (by decide)

theorem onePending_reachable :
    Run.Reachable (step twoRows .asListed .raise (idle.model twoRows 8)) Allowed
      (init oneGroup, fun _ => ()) onePending :=
  .of_exec [.execute_model onePrompt] .start (Option.some_get _).symm

theorem onePending_step : step twoRows .asListed .raise (idle.model twoRows 8) onePending
    (.sample_tokens none) = some ((step twoRows .asListed .raise (idle.model twoRows 8) onePending
      (.sample_tokens none)).get (by decide)) :=
  (Option.some_get _).symm

-- A prompt of two tokens is padded to one block.
theorem reaches_onePrompt {seq_len col offset : Nat} (h : Reaches twoRows [2] seq_len col offset) :
    col = 0 := by
  unfold Reaches at h
  rw [if_neg (by decide)] at h
  have hpadded := h.2.2 32 (by decide)
  have hbs : twoRows.block_size = 32 := rfl
  rw [hbs] at hpadded
  omega

theorem onePending_writesStay : WritesStay twoRows .raise idle 8 onePrompt onePending := by
  have hcounts : scheduled_counts onePending.1.input_batch onePrompt 0 = some [2] := by decide
  refine (writesStay_iff onePending_reachable rfl hcounts onePending_step).mpr ⟨?_, ?_⟩
  · intro hne
    exact absurd (by decide) hne
  · intro row hrow col offset hreach hcount
    have hnum : onePending.1.input_batch.num_reqs = 1 := by decide
    obtain rfl : row = 0 := by omega
    obtain rfl := reaches_onePrompt hreach
    have hone : BlockTable.count onePending.1.input_batch.block_table 0 0 = 1 := by decide
    omega

end Example

end TTXla.VllmTT.Runner
