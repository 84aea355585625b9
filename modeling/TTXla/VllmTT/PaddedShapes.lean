import TTXla.VllmTT.Attention
import TTXla.VllmTT.AscendScheduler.Resumption
import Mathlib.Data.Nat.Log

-- The padded length of a prefill, and the width of the page table.
namespace TTXla.VllmTT

section Paddings

theorem adjust_min_token_eq (m : Nat) : adjust_min_token m = 2 ^ Nat.clog 2 (max 32 m) := by
  unfold adjust_min_token
  split
  · rename_i h
    obtain ⟨k, rfl⟩ := (Nat.and_sub_one_eq_zero_iff_isPowerOfTwo (by omega)).mp h.1
    rw [Nat.max_eq_right h.2, Nat.clog_pow 2 k (by omega)]
  · split
    · rename_i hlt
      rw [Nat.max_eq_right (by omega), Nat.shiftLeft_eq, one_mul]
      congr 1
      apply Nat.le_antisymm
      · have hself := Nat.log2_self_le (show m - 1 ≠ 0 by omega)
        have := (Nat.lt_clog_iff_pow_lt (by omega)).mpr (show 2 ^ Nat.log2 (m - 1) < m by omega)
        omega
      · have := @Nat.lt_log2_self (m - 1)
        exact Nat.clog_le_of_le_pow (by omega)
    · rename_i hle
      rw [Nat.max_eq_left (by omega)]
      exact congrArg (2 ^ ·) (Nat.clog_pow 2 5 (by omega)).symm

theorem eq_of_two_pow_lt {a k : Nat} (hle : a ≤ k) (hlt : 2 ^ k < 2 * 2 ^ a) : k = a := by
  rw [← Nat.pow_succ', Nat.pow_lt_pow_iff_right (by omega)] at hlt
  omega

theorem two_pow_clog_lt {m : Nat} (hm : 1 < m) : 2 ^ Nat.clog 2 m < 2 * m := by
  have hpred := Nat.pow_pred_clog_lt_self (b := 2) (by omega) hm
  have hclog : 0 < Nat.clog 2 m := Nat.clog_pos (by omega) hm
  rw [← Nat.succ_pred_eq_of_pos hclog, Nat.pow_succ]
  omega

-- The sizes are powers of two, as far as the one that covers the maximum.
theorem mem_doublings {fuel a max_token_size p : Nat} (hfuel : max_token_size ≤ 2 ^ a + fuel) :
    p ∈ doublings fuel (2 ^ a) max_token_size ↔
      ∃ k, a ≤ k ∧ p = 2 ^ k ∧ p < 2 * max (2 ^ a) max_token_size := by
  induction fuel generalizing a with
  | zero =>
      have hpos : 0 < 2 ^ a := Nat.two_pow_pos a
      rw [doublings, List.mem_singleton]
      constructor
      · rintro rfl
        exact ⟨a, by omega, rfl, by omega⟩
      · rintro ⟨k, hle, rfl, hlt⟩
        rw [eq_of_two_pow_lt hle (by omega)]
  | succ fuel ih =>
      have hpos : 0 < 2 ^ a := Nat.two_pow_pos a
      rw [doublings, List.mem_cons]
      by_cases hcover : max_token_size ≤ 2 ^ a
      · rw [if_pos hcover]
        constructor
        · rintro (rfl | hp)
          · exact ⟨a, by omega, rfl, by omega⟩
          · cases hp
        · rintro ⟨k, hle, rfl, hlt⟩
          exact .inl (by rw [eq_of_two_pow_lt hle (by omega)])
      · have hsucc : 2 ^ (a + 1) = 2 ^ a * 2 := Nat.pow_succ 2 a
        have ih := ih (a := a + 1) (by omega)
        rw [if_neg hcover, ← hsucc, ih]
        constructor
        · rintro (rfl | ⟨k, hle, rfl, hlt⟩)
          · exact ⟨a, by omega, rfl, by omega⟩
          · refine ⟨k, by omega, rfl, ?_⟩
            -- when the next size covers the maximum, it is the only one left
            by_contra hge
            obtain rfl := eq_of_two_pow_lt hle (by omega)
            omega
        · rintro ⟨k, hle, rfl, hlt⟩
          rcases Nat.eq_or_lt_of_le hle with rfl | hk
          · exact .inl rfl
          · exact .inr ⟨k, hk, rfl, by omega⟩

-- The paddings other than 1: the powers of two from the minimum on, as far as the first one
-- that covers the maximum.
theorem mem_get_token_paddings {lo hi p : Nat} :
    p ∈ get_token_paddings lo hi ↔
      p = 1 ∨ ∃ k, p = 2 ^ k ∧ max 32 lo ≤ p ∧ p < 2 * max (max 32 lo) hi := by
  rw [get_token_paddings, List.mem_cons, adjust_min_token_eq, mem_doublings (Nat.le_add_left _ _)]
  apply or_congr_right
  generalize hm : max 32 lo = m
  have hle : m ≤ 2 ^ Nat.clog 2 m := Nat.le_pow_clog (by omega) m
  have hlt := two_pow_clog_lt (show 1 < m by omega)
  constructor
  · rintro ⟨k, hk, rfl, hp⟩
    have hmono : 2 ^ Nat.clog 2 m ≤ 2 ^ k := Nat.pow_le_pow_right (by omega) hk
    refine ⟨k, rfl, by omega, ?_⟩
    by_cases hhi : 2 ^ Nat.clog 2 m ≤ hi
    · omega
    · obtain rfl := eq_of_two_pow_lt hk (by omega)
      omega
  · rintro ⟨k, rfl, hge, hp⟩
    exact ⟨k, Nat.clog_le_of_le_pow hge, rfl, by omega⟩

-- The lookup returns the least padding that is large enough.
theorem get_padded_token_len_le_iff {paddings : List Nat} (h : paddings.Pairwise (· < ·))
    {x w : Nat} : (∃ p, get_padded_token_len paddings x = some p ∧ p ≤ w) ↔
      ∃ p ∈ paddings, x ≤ p ∧ p ≤ w := by
  unfold get_padded_token_len
  constructor
  · rintro ⟨p, hp, hle⟩
    exact ⟨p, List.mem_of_find?_eq_some hp, by simpa using List.find?_some hp, hle⟩
  · rintro ⟨p, hmem, hx, hle⟩
    cases hf : paddings.find? fun p => x ≤ p with
    | none =>
        have := List.find?_eq_none.mp hf p hmem
        simp only [decide_eq_true_eq] at this
        omega
    | some q =>
        refine ⟨q, rfl, ?_⟩
        obtain ⟨-, before, after, rfl, hbefore⟩ := List.find?_eq_some_iff_append.mp hf
        rcases List.mem_append.mp hmem with hp | hp
        · have := hbefore p hp
          simp only [Bool.not_eq_true', decide_eq_false_iff_not] at this
          omega
        · rcases List.mem_cons.mp hp with rfl | hp
          · exact hle
          · have := (List.pairwise_cons.mp (List.pairwise_append.mp h).2.1).1 p hp
            omega

theorem cdiv_le_iff {a b w : Nat} (hb : 0 < b) : cdiv a b ≤ w ↔ a ≤ w * b := by
  unfold cdiv
  rw [Nat.div_le_iff_le_mul_add_pred hb, Nat.mul_comm]
  omega

theorem cdiv_pos {a b : Nat} (ha : 0 < a) (hb : 0 < b) : 0 < cdiv a b := by
  unfold cdiv
  exact Nat.div_pos (by omega) hb

end Paddings

section PageTable

-- The largest count among the requests that one execution takes.
def BaseConfig.max_num_scheduled_tokens (cfg : BaseConfig) (counts : List Nat) : Option Nat :=
  (counts.take (cfg.num_reqs_limit counts)).max?

-- The padded token count that `_prepare_inputs` chooses.
def RunnerConfig.padded_len (cfg : RunnerConfig) (counts : List Nat) : Option Nat :=
  (cfg.max_num_scheduled_tokens counts).bind (get_padded_token_len cfg.num_tokens_paddings)

-- The padded token count exists, and its blocks have their columns in the page table.
def PadsIntoTable (cfg : RunnerConfig) (counts : List Nat) : Prop :=
  ∃ padded_len, cfg.padded_len counts = some padded_len ∧
    cdiv padded_len cfg.block_size ≤ cfg.num_blocks counts

namespace Runner

variable {T : Type} [BlockTable T] {cfg : RunnerConfig} {rs rs' : Runner T}
  {so : SchedulerOutput} {start_index : Nat} {inp : ModelInputs} {counts : List Nat}

theorem Prepared.padded_len (h : Prepared cfg rs so start_index inp rs' counts) :
    cfg.padded_len counts = some inp.padded_len := by
  obtain ⟨m, hm, hp⟩ := h.padded_max
  exact Option.bind_eq_some_iff.mpr ⟨m, hm, hp⟩

theorem Prepared.fits_iff (h : Prepared cfg rs so start_index inp rs' counts) :
    PadsIntoTable cfg counts ↔ cdiv inp.padded_len cfg.block_size ≤ inp.num_cols := by
  unfold PadsIntoTable
  rw [h.padded_len, h.num_cols]
  simp

end Runner

-- Every position of the padded row has its column exactly when the blocks have theirs.
theorem cdiv_le_iff_forall {padded_len block_size num_cols : Nat} (hb : 0 < block_size) :
    cdiv padded_len block_size ≤ num_cols ↔
      ∀ pos < padded_len, pos / block_size < num_cols := by
  rw [cdiv_le_iff hb]
  constructor
  · intro hle pos hpos
    exact (Nat.div_lt_iff_lt_mul hb).mpr (by omega)
  · intro hall
    by_contra hlt
    have := (Nat.div_lt_iff_lt_mul hb).mp (hall (num_cols * block_size) (by omega))
    omega

theorem BaseConfig.num_blocks_pos (cfg : BaseConfig) (counts : List Nat) :
    0 < cfg.num_blocks counts := by
  have hmax : 0 < cfg.max_num_blocks_per_req := cdiv_pos cfg.max_model_len_pos cfg.block_size_pos
  unfold num_blocks
  split
  · exact hmax
  · rename_i huse
    apply Nat.lt_min.mpr
    refine ⟨?_, hmax⟩
    unfold use_max_model_len at huse
    unfold num_blocks_per_most_len_req
    cases hlen : cfg.most_model_len with
    | none =>
        rw [hlen] at huse
        exact absurd rfl huse
    | some len => exact cdiv_pos (cfg.most_model_len_pos len (by rw [hlen]; rfl)) cfg.block_size_pos

-- A prefill of several tokens fits when there is a power of two that is large enough for the
-- tokens and for the minimum, and neither larger than the table nor than the last padding.
theorem padsIntoTable_iff (cfg : RunnerConfig) (counts : List Nat) :
    PadsIntoTable cfg counts ↔ ∃ n, cfg.max_num_scheduled_tokens counts = some n ∧
      (n ≤ 1 ∨ ∃ k,
        max 32 (max (min cfg.min_context_len cfg.max_num_batched_tokens) n) ≤ 2 ^ k ∧
        2 ^ k ≤ cfg.num_blocks counts * cfg.block_size ∧
        2 ^ k < 2 * max 32 (max (min cfg.min_context_len cfg.max_num_batched_tokens)
          cfg.max_model_len)) := by
  have hpos := cfg.num_blocks_pos counts
  have hb := cfg.block_size_pos
  have hone : 1 ≤ cfg.num_blocks counts * cfg.block_size := Nat.mul_pos hpos hb
  have hlookup : PadsIntoTable cfg counts ↔ ∃ n, cfg.max_num_scheduled_tokens counts = some n ∧
      ∃ p, get_padded_token_len cfg.num_tokens_paddings n = some p ∧
        p ≤ cfg.num_blocks counts * cfg.block_size := by
    unfold PadsIntoTable RunnerConfig.padded_len
    simp only [cdiv_le_iff hb, Option.bind_eq_some_iff]
    constructor
    · rintro ⟨p, ⟨n, hn, hp⟩, hle⟩
      exact ⟨n, hn, p, hp, hle⟩
    · rintro ⟨n, hn, p, hp, hle⟩
      exact ⟨p, ⟨n, hn, hp⟩, hle⟩
  rw [hlookup]
  apply exists_congr
  intro n
  apply and_congr_right
  intro _
  unfold RunnerConfig.num_tokens_paddings
  rw [get_padded_token_len_le_iff (get_token_paddings_ascending _ _)]
  simp only [mem_get_token_paddings]
  generalize min cfg.min_context_len cfg.max_num_batched_tokens = lo
  constructor
  · rintro ⟨p, rfl | ⟨k, rfl, hge, hlt⟩, hn, hle⟩
    · exact .inl hn
    · exact .inr ⟨k, by omega, hle, by omega⟩
  · rintro (hn | ⟨k, hge, hle, hlt⟩)
    · exact ⟨1, .inl rfl, hn, hone⟩
    · exact ⟨2 ^ k, .inr ⟨k, rfl, by omega, by omega⟩, by omega, hle⟩

-- Without a separate length for most requests, a configuration fits all prompts of the model's
-- length exactly when it fits the longest one.
theorem forall_padsIntoTable_iff (cfg : RunnerConfig) (hmost : cfg.most_model_len = none) :
    (∀ n, 0 < n → n ≤ cfg.max_model_len → PadsIntoTable cfg [n]) ↔
      0 < cfg.num_reqs_max_model_len ∧ (cfg.max_model_len = 1 ∨ ∃ k,
        max 32 (max (min cfg.min_context_len cfg.max_num_batched_tokens) cfg.max_model_len) ≤
          2 ^ k ∧ 2 ^ k ≤ cfg.max_num_blocks_per_req * cfg.block_size) := by
  have huse : ∀ counts, cfg.use_max_model_len counts = true := by
    intro counts
    unfold BaseConfig.use_max_model_len
    rw [hmost]
  have hcols : ∀ counts, cfg.num_blocks counts = cfg.max_num_blocks_per_req := by
    intro counts
    unfold BaseConfig.num_blocks
    rw [if_pos (huse counts)]
  have hlongest : ∀ n m, cfg.max_num_scheduled_tokens [n] = some m ↔
      0 < cfg.num_reqs_max_model_len ∧ n = m := by
    intro n m
    unfold BaseConfig.max_num_scheduled_tokens BaseConfig.num_reqs_limit
    rw [if_pos (huse [n])]
    cases cfg.num_reqs_max_model_len with
    | zero => simp
    | succ limit => simp
  have hpos := cfg.max_model_len_pos
  simp only [padsIntoTable_iff, hcols, hlongest]
  generalize min cfg.min_context_len cfg.max_num_batched_tokens = lo
  constructor
  · intro hall
    obtain ⟨n, ⟨hlimit, rfl⟩, hn⟩ := hall cfg.max_model_len hpos (Nat.le_refl _)
    refine ⟨hlimit, ?_⟩
    rcases hn with hn | ⟨k, hge, hle, -⟩
    · exact .inl (by omega)
    · exact .inr ⟨k, hge, hle⟩
  · rintro ⟨hlimit, hone | ⟨k, hge, hle⟩⟩ n hn hmax
    · exact ⟨n, ⟨hlimit, rfl⟩, .inl (by omega)⟩
    · refine ⟨n, ⟨hlimit, rfl⟩, .inr ?_⟩
      -- the least power of two that is large enough
      generalize hm : max 32 (max lo n) = m
      have hclog : 2 ^ Nat.clog 2 m ≤ 2 ^ k :=
        Nat.pow_le_pow_right (by omega) (Nat.clog_le_of_le_pow (by omega))
      have hlt := two_pow_clog_lt (show 1 < m by omega)
      exact ⟨Nat.clog 2 m, Nat.le_pow_clog (by omega) m, by omega, by omega⟩

end PageTable

section Admission

open AscendScheduler

-- The runner and the scheduler are made from one configuration.
structure SameLimits (cfg : RunnerConfig) (sched : AscendScheduler.Config) : Prop where
  max_model_len : sched.max_model_len = cfg.max_model_len
  max_num_scheduled_tokens : sched.max_num_scheduled_tokens = cfg.max_num_batched_tokens
  max_num_running_reqs : sched.max_num_running_reqs = cfg.max_num_seqs
  block_size : sched.block_size = cfg.block_size

def scheduled_tokens {K : Type} : Except SchedulerError (K × Request × Verdict) → Option Nat
  | .ok (_, _, .enter _ num_new_tokens _) => some num_new_tokens
  | _ => none

-- The scheduler takes the request from the queue, with this many tokens.
def Admits {K LP : Type} (sched : AscendScheduler.Config) (base : Base K LP) (request : Request)
    (n : Nat) : Prop :=
  ∃ kv scheduled_loras token_budget id, token_budget ≤ (sched.max_num_scheduled_tokens : Int) ∧
    scheduled_tokens (judge sched base kv scheduled_loras token_budget id request) = some n

-- Without an adapter for long contexts, the padding of an admitted length exists.
theorem Admits.padded_len {K LP : Type} {cfg : RunnerConfig} {sched : AscendScheduler.Config}
    {base : Base K LP} {request : Request} {n : Nat} (h : Admits sched base request n)
    (hsame : SameLimits cfg sched)
    (hlora : request.lora_request.bind LoRARequest.long_lora_max_len = none) :
    0 < n ∧ n ≤ cfg.max_model_len ∧
      (get_padded_token_len cfg.num_tokens_paddings n).isSome := by
  obtain ⟨kv, loras, token_budget, id, -, h⟩ := h
  unfold scheduled_tokens at h
  split at h
  · rename_i kv' request' c n' blocks hjudge
    cases h
    obtain ⟨hpos, -, -⟩ := (judge_spec hjudge).enter c n blocks rfl
    obtain ⟨limit, hlimited⟩ := judge_limited hjudge (.inr ⟨c, n, blocks, rfl⟩)
    have hle := hlimited.enter c n blocks rfl
    have hlimit := hlimited.prompt_limit
    unfold get_prompt_limit at hlimit
    simp only [hlora, Except.ok.injEq] at hlimit
    have hmodel := hsame.max_model_len
    have hshort : n ≤ cfg.max_model_len := by omega
    exact ⟨hpos, hshort, get_padded_token_len_isSome hshort⟩
  · cases h

theorem no_most_model_len_pos : ∀ len ∈ (none : Option Nat), 0 < len := fun _ h => by cases h

-- A prompt of 65 tokens is padded to 128, but 65 tokens have three blocks of 32 only.
def length65 : RunnerConfig where
  max_num_seqs := 1
  max_model_len := 65
  max_num_batched_tokens := 65
  block_size := 32
  min_context_len := 128
  most_model_len := none
  vocab_size := 8
  lora_config := false
  max_model_len_pos := Nat.succ_pos 64
  block_size_pos := Nat.succ_pos 31
  most_model_len_pos := no_most_model_len_pos
  max_model_len_le := Nat.le_refl 65

def length65_scheduler : AscendScheduler.Config where
  max_num_scheduled_tokens := 65
  max_num_running_reqs := 1
  max_model_len := 65
  block_size := 32
  num_blocks := 8
  num_lookahead_tokens := 0
  watermark := 0
  lora_config := none

theorem length65_not_padsIntoTable : SameLimits length65 length65_scheduler ∧
    Admits length65_scheduler (poolBase length65_scheduler)
      (newRequest (List.replicate 65 1)) 65 ∧
    length65.padded_len [65] = some 128 ∧ ¬PadsIntoTable length65 [65] := by
  have hpadded : length65.padded_len [65] = some 128 := by decide
  refine ⟨⟨rfl, rfl, rfl, rfl⟩, ⟨⟨7, fun _ => 0⟩, ∅, 65, "A", by decide, by decide +kernel⟩,
    hpadded, ?_⟩
  rintro ⟨p, hp, hle⟩
  obtain rfl := Option.some.inj (hpadded.symm.trans hp)
  exact absurd hle (by decide)

end Admission

end TTXla.VllmTT
