import TTXla.VllmTT.PrepareInputs
import TTXla.Lib.Options

namespace TTXla.VllmTT

theorem adjust_min_token_ge (m : Nat) : 32 ≤ adjust_min_token m := by
  unfold adjust_min_token
  split
  · rename_i h; exact h.2
  · split
    · rw [Nat.shiftLeft_eq, one_mul]
      have := @Nat.lt_log2_self (m - 1)
      omega
    · exact Nat.le_refl _

-- With enough fuel the doubling stops only at a size that covers the maximum.
theorem doublings_spec (fuel num max_token_size : Nat) (hnum : 0 < num)
    (hfuel : max_token_size ≤ num + fuel) :
    (∀ p ∈ doublings fuel num max_token_size, num ≤ p) ∧
      (doublings fuel num max_token_size).Pairwise (· < ·) ∧
      max_token_size ≤ (doublings fuel num max_token_size).getLastD 0 := by
  induction fuel generalizing num with
  | zero => simpa [doublings] using hfuel
  | succ fuel ih =>
      unfold doublings
      split
      · rename_i hle; simpa using hle
      · obtain ⟨i1, i2, i3⟩ := ih (num * 2) (by omega) (by omega)
        have hlt : ∀ p ∈ doublings fuel (num * 2) max_token_size, num < p := fun p hp => by
          have := i1 p hp
          omega
        refine ⟨fun p hp => ?_, List.pairwise_cons.mpr ⟨hlt, i2⟩, ?_⟩
        · rcases List.mem_cons.mp hp with rfl | hp
          · exact Nat.le_refl _
          · exact Nat.le_of_lt (hlt p hp)
        · cases hd : doublings fuel (num * 2) max_token_size with
          | nil => rw [hd] at i3; simp at i3; omega
          | cons p ps => rw [hd] at i3; simpa using i3

theorem get_token_paddings_ascending (lo hi : Nat) :
    (get_token_paddings lo hi).Pairwise (· < ·) := by
  have hge := adjust_min_token_ge lo
  obtain ⟨h1, h2, -⟩ := doublings_spec hi (adjust_min_token lo) hi (by omega) (by omega)
  exact List.pairwise_cons.mpr ⟨fun p hp => by have := h1 p hp; omega, h2⟩

theorem get_token_paddings_covers (lo hi : Nat) : hi ≤ (get_token_paddings lo hi).getLastD 0 := by
  have hge := adjust_min_token_ge lo
  obtain ⟨-, -, h3⟩ := doublings_spec hi (adjust_min_token lo) hi (by omega) (by omega)
  unfold get_token_paddings
  cases hd : doublings hi (adjust_min_token lo) hi with
  | nil => rw [hd] at h3; simp at h3; omega
  | cons p ps => rw [hd] at h3; simpa using h3

-- A padded length covers the tokens; it is 1 for a single token and at least 32 else.
theorem get_padded_token_len_spec {lo hi x p : Nat}
    (h : get_padded_token_len (get_token_paddings lo hi) x = some p) :
    x ≤ p ∧ (x ≤ 1 → p = 1) ∧ (1 < x → 32 ≤ p) := by
  have hx : x ≤ p := by simpa using List.find?_some h
  have hge := adjust_min_token_ge lo
  obtain ⟨h1, -, -⟩ := doublings_spec hi (adjust_min_token lo) hi (by omega) (by omega)
  refine ⟨hx, fun hle => ?_, fun hlt => ?_⟩
  · simp only [get_padded_token_len, get_token_paddings, List.find?_cons, hle, decide_true,
      Option.some.injEq] at h
    exact h.symm
  · rcases List.mem_cons.mp (List.mem_of_find?_eq_some h) with rfl | hp
    · omega
    · have := h1 p hp
      omega

theorem get_padded_token_len_isSome {lo hi x : Nat} (h : x ≤ hi) :
    (get_padded_token_len (get_token_paddings lo hi) x).isSome := by
  rw [get_padded_token_len, List.find?_isSome]
  have hc := get_token_paddings_covers lo hi
  refine ⟨(get_token_paddings lo hi).getLastD 0, ?_, by simpa using le_trans h hc⟩
  rw [get_token_paddings, List.getLastD_cons]
  exact List.getLastD_mem_cons

-- No padding is added exactly to the lengths that are themselves paddings.
theorem get_padded_token_len_eq_self {lo hi x p : Nat}
    (h : get_padded_token_len (get_token_paddings lo hi) x = some p) :
    x = p ↔ x ∈ get_token_paddings lo hi := by
  have hasc := get_token_paddings_ascending lo hi
  obtain ⟨hx, before, after, he, hbefore⟩ := List.find?_eq_some_iff_append.mp h
  rw [he] at hasc ⊢
  constructor
  · rintro rfl
    simp
  · intro hm
    rcases List.mem_append.mp hm with hm | hm
    · have := hbefore x hm
      simp at this
    · rcases List.mem_cons.mp hm with rfl | hm
      · rfl
      · have := (List.pairwise_cons.mp (List.pairwise_append.mp hasc).2.1).1 x hm
        have := of_decide_eq_true hx
        omega

theorem div_lt_cdiv {p a b : Nat} (hb : 0 < b) (h : p < a) : p / b < cdiv a b := by
  unfold cdiv
  apply (Nat.le_div_iff_mul_le hb).mpr
  have := Nat.div_mul_le_self p b
  rw [Nat.succ_mul]
  omega

-- The page table has a column for every position below a scheduled count.
theorem BaseConfig.div_lt_num_blocks (cfg : BaseConfig) {counts : List Nat} {n p : Nat}
    (hn : n ∈ counts) (hp : p < n) (hle : n ≤ cfg.max_model_len) :
    p / cfg.block_size < cfg.num_blocks counts := by
  have hmax : p / cfg.block_size < cfg.max_num_blocks_per_req :=
    div_lt_cdiv cfg.block_size_pos (by omega)
  unfold num_blocks
  split
  · exact hmax
  · rename_i huse
    apply Nat.lt_min.mpr
    refine ⟨?_, hmax⟩
    unfold use_max_model_len at huse
    unfold num_blocks_per_most_len_req
    cases hlen : cfg.most_model_len with
    | none => rw [hlen] at huse; exact absurd rfl huse
    | some len =>
        rw [hlen] at huse
        simp only [List.any_eq_true, decide_eq_true_eq, not_exists, not_and] at huse
        have := huse n hn
        exact div_lt_cdiv cfg.block_size_pos (by omega)

theorem BaseConfig.num_reqs_limit_le (cfg : BaseConfig) (counts : List Nat) :
    cfg.num_reqs_limit counts ≤ cfg.max_num_reqs := by
  unfold num_reqs_limit
  split
  · exact Nat.min_le_right _ _
  · unfold num_reqs_most_model_len
    cases cfg.most_model_len with
    | none => exact Nat.zero_le _
    | some len => exact Nat.min_le_right _ _

namespace Runner

variable {T : Type} [BlockTable T]

omit [BlockTable T] in
theorem getElem?_scheduled_counts {b : InputBatch T} {so : SchedulerOutput}
    {start_index : Nat} {counts : List Nat}
    (h : scheduled_counts b so start_index = some counts) :
    counts.length = b.num_reqs - start_index ∧ ∀ i, i < b.num_reqs - start_index →
      ∃ id n, b.req_ids[start_index + i]? = some (some id) ∧
        so.num_scheduled_tokens.lookup id = some n ∧ counts[i]? = some n := by
  obtain ⟨hl, hg⟩ := Options.getElem?_of_mapM h
  rw [List.length_range'] at hl
  refine ⟨hl, fun i hi => ?_⟩
  have hi' := hg i
  rw [List.getElem?_range' hi, Nat.one_mul, Option.bind_some,
    List.getElem?_eq_getElem (by omega)] at hi'
  obtain ⟨id, hid, hn⟩ := Option.bind_eq_some_iff.mp hi'.symm
  exact ⟨id, _, Option.join_eq_some_iff.mp hid, hn, List.getElem?_eq_getElem (by omega)⟩

-- What a call computes, from the counts of all rows from `start_index` on.
structure PreparedUpto (cfg : RunnerConfig) (limit : List Nat → Nat) (rs : Runner T)
    (so : SchedulerOutput) (start_index : Nat) (inp : ModelInputs) (rs' : Runner T) (all_counts : List Nat) :
    Prop where
  start_lt : start_index < rs.input_batch.num_reqs
  scheduled : scheduled_counts rs.input_batch so start_index = some all_counts
  pos : ∃ n ∈ all_counts.take (limit all_counts), 0 < n
  le_padded : ∀ n ∈ all_counts.take (limit all_counts), n ≤ inp.padded_len
  padded_eq_one : inp.padded_len = 1 ↔
    ∀ n ∈ all_counts.take (limit all_counts), n ≤ 1
  padded_pos : 0 < inp.padded_len
  padded_max : ∃ m, (all_counts.take (limit all_counts)).max? = some m ∧
    get_padded_token_len cfg.num_tokens_paddings m = some inp.padded_len
  fits : ∀ i n, (all_counts.take (limit all_counts))[i]? = some n →
    sliceFits cfg.max_model_len (rs.input_batch.num_computed_tokens_cpu i) n
  num_reqs_le : inp.num_reqs ≤ cfg.max_num_tokens
  groups_pos : 0 < BlockTable.groups rs.input_batch.block_table
  num_reqs : inp.num_reqs = min (limit all_counts) all_counts.length
  num_users : inp.num_users = limit all_counts
  num_cols : inp.num_cols = cfg.num_blocks all_counts
  end_index : inp.end_index = start_index + inp.num_reqs
  input_ids : ∀ i n j, (all_counts.take (limit all_counts))[i]? = some n → j < n →
    inp.input_ids i j = readSlice cfg.max_model_len (rs.input_batch.token_ids_cpu i)
      (rs.input_batch.num_computed_tokens_cpu i) n j
  position_ids : ∀ i n j, (all_counts.take (limit all_counts))[i]? = some n →
    j < n → inp.position_ids i j = rs.input_batch.num_computed_tokens_cpu i + j
  runner : rs' = rs.fill_buffers (all_counts.take (limit all_counts)) inp.num_cols
    inp.num_users
  page_table : inp.page_table = rs'.block_table_cpu
  cache_position : inp.cache_position =
    (List.range (min inp.num_users cfg.max_num_tokens)).map fun i =>
      if inp.num_reqs = 1 ∧ 0 < i then -1 else (rs'.seq_lens_cpu i : Int) - 1
  logits_indices : inp.logits_indices =
    (List.range (min cfg.max_num_reqs cfg.max_num_tokens)).map fun i =>
      (rs'.query_start_loc_np (i + 1) : Int) - 1

abbrev Prepared (cfg : RunnerConfig) : Runner T → SchedulerOutput → Nat → ModelInputs →
    Runner T → List Nat → Prop := PreparedUpto cfg cfg.num_reqs_limit

theorem prepare_inputs_upto_spec (cfg : RunnerConfig) {limit : List Nat → Nat}
    {rs rs' : Runner T} {so : SchedulerOutput} {start_index : Nat} {inp : ModelInputs}
    (h : prepare_inputs_upto cfg limit rs so start_index = some (inp, rs')) :
    ∃ all_counts, PreparedUpto cfg limit rs so start_index inp rs' all_counts := by
  unfold prepare_inputs_upto at h
  simp only [Option.bind_eq_bind, Option.bind_eq_some_iff, Options.guard_eq_some] at h
  obtain ⟨-, -, -, -, -, hstart, all_counts, hall, m, hm, -, hmpos, p, hp, -, hfits, -, hle, -,
    hg, lora, -, h⟩ := h
  simp only [Option.pure_def, Option.some.injEq, Prod.mk.injEq] at h
  obtain ⟨rfl, rfl⟩ := h
  obtain ⟨hm1, hm2⟩ := List.max?_eq_some_iff.mp hm
  have hlen := (getElem?_scheduled_counts hall).1
  obtain ⟨p1, p2, p3⟩ := get_padded_token_len_spec hp
  have hget : ∀ i n, (all_counts.take (limit all_counts))[i]? = some n →
      i < (all_counts.take (limit all_counts)).length ∧
        (all_counts.take (limit all_counts)).getD i 0 = n := by
    intro i n hi
    exact ⟨(List.getElem?_eq_some_iff.mp hi).1, by rw [List.getD_eq_getElem?_getD, hi]; rfl⟩
  refine ⟨all_counts, hstart, hall, ⟨m, hm1, hmpos⟩, fun n hn => (hm2 n hn).trans p1, ?_,
    ?_, ⟨m, hm, hp⟩, fun i n hi => ?_, hle, hg, List.length_take, rfl, rfl, ?_, fun i n j hi hj => ?_,
    fun i n j hi hj => ?_, rfl, rfl, rfl, rfl⟩
  · refine ⟨fun he n hn => ?_, fun hall => p2 (hall m hm1)⟩
    have := hm2 n hn
    by_contra hgt
    have := p3 (by omega)
    dsimp only at he
    omega
  · exact lt_of_lt_of_le hmpos p1
  · obtain ⟨h1, h2⟩ := hget i n hi
    exact h2 ▸ hfits i h1
  · simp only [List.length_take]
    split <;> omega
  · obtain ⟨h1, rfl⟩ := hget i n hi
    exact if_pos ⟨h1, hj⟩
  · obtain ⟨h1, rfl⟩ := hget i n hi
    exact if_pos ⟨h1, hj⟩

theorem prepare_inputs_spec (cfg : RunnerConfig) {rs rs' : Runner T} {so : SchedulerOutput}
    {start_index : Nat} {inp : ModelInputs}
    (h : prepare_inputs cfg rs so start_index = some (inp, rs')) :
    ∃ all_counts, Prepared cfg rs so start_index inp rs' all_counts :=
  prepare_inputs_upto_spec cfg h

end Runner

end TTXla.VllmTT
