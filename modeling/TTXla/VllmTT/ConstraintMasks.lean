import TTXla.VllmTT.SamplingIsolation

-- The masks of the sampler, and the histories that they are built from.
namespace TTXla.VllmTT

open InputBatch

namespace SamplingMetadata

-- Some bad word ends in the token, and the output in the tokens before it.
def Bans (bad_words_token_ids : Option (List (List Token))) (past : List Token)
    (token : Token) : Prop :=
  ∃ bad_word_ids ∈ bad_words_token_ids.getD [], ∃ before : List Token,
    bad_word_ids = before ++ [token] ∧ before <:+ past

theorem bad_word_bans_iff {vocab_size : Nat} {past bad_word_ids : List Token} {token : Token} :
    bad_word_bans vocab_size past bad_word_ids token = true ↔ token < vocab_size ∧
      ∃ before : List Token, bad_word_ids = before ++ [token] ∧ before <:+ past := by
  simp only [bad_word_bans, Bool.and_eq_true, decide_eq_true_eq, beq_iff_eq]
  constructor
  · rintro ⟨⟨⟨hlast, hvocab⟩, -⟩, hpast⟩
    refine ⟨hvocab, bad_word_ids.dropLast, (List.dropLast_append_getLast? token hlast).symm, ?_⟩
    rw [← hpast]
    exact List.drop_suffix _ _
  · rintro ⟨hvocab, before, rfl, hbefore⟩
    have hle := hbefore.length_le
    simp only [List.getLast?_concat, List.length_append, List.length_singleton,
      Nat.add_sub_cancel, List.dropLast_concat]
    exact ⟨⟨⟨trivial, hvocab⟩, by omega⟩, (List.suffix_iff_eq_drop.mp hbefore).symm⟩

theorem bad_words_row_iff {vocab_size : Nat} {sp : SamplingParams} {past : List Token}
    {token : Token} (hvocab : token < vocab_size) :
    bad_words_row vocab_size (badWordsOf sp) past token = true ↔
      Bans sp.bad_words_token_ids past token := by
  unfold badWordsOf Bans
  by_cases hnone : sp.bad_words_token_ids.getD [] = []
  · simp [hnone, bad_words_row]
  · rw [if_pos hnone]
    simp only [bad_words_row, List.any_eq_true, bad_word_bans_iff, hvocab, true_and]

theorem min_tokens_row_iff {vocab_size : Nat} {sp : SamplingParams} {past : List Token}
    {token : Token} (hvocab : token < vocab_size) :
    min_tokens_row vocab_size (minTokensOf sp) past token = true ↔
      token ∈ sp.all_stop_token_ids ∧ past.length < sp.min_tokens := by
  unfold minTokensOf
  by_cases hnone : sp.min_tokens = 0
  · simp [hnone, min_tokens_row]
  · rw [if_pos hnone]
    simp only [min_tokens_row, Bool.and_eq_true, decide_eq_true_eq, hvocab, and_true]
    exact And.comm

end SamplingMetadata

namespace BatchState

open SamplingMetadata (Bans)

variable {T : Type}

-- What the tensors say of the row of a request; a tensor that is not built has no effect.
structure MasksRow (cfg : RunnerConfig) (md : SamplingMetadata) (vocab_size : Option Nat) (i : Nat)
    (st : CachedRequestState) (sp : SamplingParams) (past : List Token) : Prop where
  bad_words : ∀ token < cfg.vocab_size, ((md.bad_words_mask.map fun t => t i token).getD false =
    true ↔ Bans sp.bad_words_token_ids past token)
  min_tokens : ∀ token < cfg.vocab_size, ((md.min_tokens_mask.map fun t => t i token).getD false =
    true ↔ token ∈ sp.all_stop_token_ids ∧ past.length < sp.min_tokens)
  output_token_counts : ∀ t ∈ md.output_token_counts, ∀ token, t i token = past.count token
  prompt_token_mask : ∀ t ∈ md.prompt_token_mask, ∀ v ∈ vocab_size, ∀ token < v,
    (t i token = true ↔ token ∈ st.prompt_token_ids)

structure NeutralRow (md : SamplingMetadata) (i : Nat) : Prop where
  bad_words : ∀ token, (md.bad_words_mask.map fun t => t i token).getD false = false
  min_tokens : ∀ token, (md.min_tokens_mask.map fun t => t i token).getD false = false
  output_token_counts : ∀ t ∈ md.output_token_counts, ∀ token, t i token = 0
  prompt_token_mask : ∀ t ∈ md.prompt_token_mask, ∀ token, t i token = false

structure MasksMatch (cfg : RunnerConfig) (s : BatchState T) (outs : OutRef → List Token)
    (padded_num_reqs : Nat) (vocab_size : Option Nat) (md : SamplingMetadata) : Prop where
  rows : ∀ (id : ReqId) (i : Nat), s.batch.req_id_to_index.lookup id = some i →
    i < padded_num_reqs → ∃ st sp, s.owner id = some st ∧ st.sampling_params = some sp ∧
      MasksRow cfg md vocab_size i st sp (outs st.output_token_ids)
  padding : ∀ i, s.batch.num_reqs ≤ i → i < padded_num_reqs → NeutralRow md i

-- The rows of the padding hold no prompt, or no prompt mask is built.
def NoStalePrompt (b : InputBatch T) (padded_num_reqs : Nat) (vocab_size : Option Nat) : Prop :=
  b.no_penalties = true ∨ ∀ v ∈ vocab_size, ∀ i, b.num_reqs ≤ i → i < padded_num_reqs →
    ∀ p < b.num_prompt_tokens i, v ≤ b.token_ids_cpu i p

-- The part of a row that the histories are read from.
structure History where
  num_prompt_tokens : Nat
  token_ids : List Token
  output_token_ids : Option OutRef

def history (b : InputBatch T) (i : Nat) : History where
  num_prompt_tokens := b.num_prompt_tokens i
  token_ids := (List.range (b.num_tokens i)).map (b.token_ids_cpu i)
  output_token_ids := (b.req_output_token_ids[i]?).join

structure HistoryOf (st : CachedRequestState) (r : History) : Prop where
  num_prompt_tokens : r.num_prompt_tokens = st.prompt_token_ids.length
  token_ids : st.prompt_token_ids <+: r.token_ids
  output_token_ids : r.output_token_ids = some st.output_token_ids

-- Each row has the masks' sources of its request, whatever bias and allowed tokens it has.
structure Held [BlockTable T] (cfg : RunnerConfig) (s : BatchState T) : Prop where
  holes : s.batch.Holes s.empty_req_indices
  ascending : s.empty_req_indices.reverse.Pairwise (· < ·)
  vacated : s.batch.Vacated
  absent : ∀ id, id ∉ s.batch.req_id_to_index → s.batch.setsRow id = .absent
  rows : ∀ id, id ∈ s.batch.req_id_to_index → ∃ st sp r row, s.owner id = some st ∧
    st.sampling_params = some sp ∧
    (s.batch.req_id_to_index.lookup id).map (history s.batch) = some r ∧ HistoryOf st r ∧
    s.batch.sampling id = some row ∧ row.bad_words_token_ids = badWordsOf sp ∧
    row.min_tokens = minTokensOf sp

variable [BlockTable T]

-- A batch that keeps the whole row of a request keeps this part.
theorem history_of_rowOf {b b' : InputBatch T} {id : ReqId} (h : b'.rowOf id = b.rowOf id) :
    (b'.req_id_to_index.lookup id).map (history b') =
      (b.req_id_to_index.lookup id).map (history b) := by
  have hpart : ∀ c : InputBatch T, (c.req_id_to_index.lookup id).map (history c) =
      (c.rowOf id).map fun r => ⟨r.num_prompt_tokens, r.token_ids, r.output_token_ids⟩ := by
    intro c
    unfold rowOf
    rw [Option.map_map]
    rfl
  rw [hpart, hpart, h]

theorem held_init (cfg : RunnerConfig) (memory : InputBatch T) : Held cfg (init memory) where
  holes := full_init memory
  ascending := List.Pairwise.nil
  vacated := (inv_init cfg memory).vacated
  absent := (inv_init cfg memory).absent
  rows := fun id hid => by simp [init, InputBatch.init] at hid

theorem held_remove_request (cfg : RunnerConfig) {s : BatchState T} (h : Held cfg s)
    {id : ReqId} {r : Option Nat} {b : InputBatch T}
    (hr : s.batch.remove_request cfg.batch id = some (r, b)) :
    Held cfg { s with
      batch := b
      empty_req_indices := sortedDesc (s.empty_req_indices ++ r.toList) } := by
  obtain ⟨h1, -, h2, -, h4⟩ := holes_remove_request cfg.batch h.holes hr
  obtain ⟨v1, v2, v3⟩ := sampling_remove_request cfg.batch rfl h.holes h.vacated hr
    (h.absent id)
  have hperm := sortedDesc_perm (s.empty_req_indices ++ r.toList)
  refine ⟨⟨h1.indexed, hperm.nodup_iff.mpr h1.nodup, fun i => by rw [h1.vacant, hperm.mem_iff],
    by rw [hperm.length_eq]; exact h1.count⟩, sortedDesc_ascending h1.nodup, v1,
    fun k hk => ?_, fun k hk => ?_⟩
  · rw [Dict.mem_iff_of_lookup (h2 k), not_and_not_right] at hk
    rw [v3]
    split
    · rfl
    · rename_i hne
      exact h.absent k fun hm => hne (hk hm)
  · obtain ⟨hm, hne⟩ := (Dict.mem_iff_of_lookup (h2 k)).mp hk
    obtain ⟨st, sp, r', row, r1, r2, r3, r4, r5, r6⟩ := h.rows k hm
    refine ⟨st, sp, r', row, r1, r2, ?_, r4, ?_, r6⟩
    · exact (history_of_rowOf (by rw [h4, if_neg hne])).trans r3
    · rw [v2, if_neg hne]
      exact r5

theorem held_add_request (cfg : RunnerConfig) {s : BatchState T} (h : Held cfg s)
    {outs : OutRef → List Token} {st : CachedRequestState} {b : InputBatch T}
    (hproper : Proper cfg s (.add_request outs st))
    (hr : s.batch.add_request cfg.batch outs st s.empty_req_indices.getLast? = some b) :
    Held cfg ⟨b, s.empty_req_indices.dropLast,
      Function.update s.owner st.req_id (some st)⟩ := by
  obtain ⟨hid, hsome, hfit⟩ := hproper
  obtain ⟨sp, hsp⟩ := Option.isSome_iff_exists.mp hsome
  obtain ⟨a1, -, a3, -, r, a5, a6⟩ := holes_add_request cfg.batch outs h.holes hid hfit hr
  obtain ⟨v1, v2, v3⟩ := overlay_add_request cfg.batch outs h.holes h.vacated hsp hid
    (h.absent _ hid) hr
  have hfree := h.vacated _ (add_index_free h.holes)
  refine ⟨a1, ?_, v1, fun k hk => ?_, fun k hk => ?_⟩
  · have := h.ascending
    rw [List.pairwise_reverse] at this ⊢
    exact this.sublist (List.dropLast_sublist _)
  · rw [a3, not_or] at hk
    rw [v3, if_neg hk.1]
    exact h.absent k hk.2
  · rw [a3] at hk
    by_cases hks : k = st.req_id
    · subst hks
      have hrow := a6 st.req_id
      rw [if_pos rfl] at hrow
      obtain ⟨i, hi, hri⟩ := Option.map_eq_some_iff.mp hrow
      refine ⟨st, sp, history b i, _, by simp, hsp, by rw [hi]; rfl, ?_,
        by rw [v2, if_pos rfl], ?_, ?_⟩
      · rw [← hri] at a5
        refine ⟨a5.num_prompt_tokens, ?_, a5.output_token_ids⟩
        have htokens : (history b i).token_ids = st.history outs := a5.token_ids
        rw [htokens]
        exact List.prefix_append _ _
      · simp only [overlay, hfree.bad_words_token_ids, Option.or_none]
      · simp only [overlay, hfree.min_tokens, Option.or_none]
    · obtain ⟨st', sp', r', row, r1, r2, r3, r4, r5, r6⟩ := h.rows k (hk.resolve_left hks)
      refine ⟨st', sp', r', row, by simp [hks, r1], r2, ?_, r4, ?_, r6⟩
      · exact (history_of_rowOf (by rw [a6, if_neg hks])).trans r3
      · rw [v2, if_neg hks]
        exact r5

theorem held_condense (cfg : RunnerConfig) {s : BatchState T} (h : Held cfg s) :
    Held cfg { s with
      batch := if s.empty_req_indices ≠ [] then s.batch.condense s.empty_req_indices
        else s.batch
      empty_req_indices := [] } := by
  split
  · obtain ⟨c1, c2, c3, c4, c5⟩ := condense_spec h.holes h.ascending
    obtain ⟨v1, v2, v3⟩ := sampling_condense h.holes h.ascending h.vacated
    refine ⟨c1, List.Pairwise.nil, v1, fun k hk => ?_, fun k hk => ?_⟩
    · rw [v3]
      exact h.absent k fun hm => hk ((c3 k).mpr hm)
    · obtain ⟨st, sp, r, row, r1, r2, r3, r4, r5, r6⟩ := h.rows k ((c3 k).mp hk)
      exact ⟨st, sp, r, row, r1, r2, (history_of_rowOf (c5 k)).trans r3, r4, (v2 k).trans r5, r6⟩
  · rename_i he
    rw [not_not] at he
    exact ⟨he ▸ h.holes, List.Pairwise.nil, h.vacated, h.absent, h.rows⟩

theorem held_swap_states [SwapDictValues] (cfg : RunnerConfig) {s : BatchState T}
    (h : Held cfg s) {i1 i2 : Nat} {b : InputBatch T} (hr : s.batch.swap_states i1 i2 = some b) :
    Held cfg { s with batch := b } := by
  obtain ⟨-, -, -, -, -, -, -, hsets, hrow⟩ := swap_states_eq h.holes.indexed hr
  obtain ⟨hholes, hmem, hmove, hout, hvac⟩ := holes_swap_states h.holes hr
  have hhistory : ∀ j, history b j = if j = i2 then history s.batch i1
      else if j = i1 then history s.batch i2 else history s.batch j := by
    intro j
    have houts := hout j
    simp only [swap_states, Option.bind_eq_bind, Option.bind_eq_some_iff, Option.pure_def,
      Option.some.injEq] at hr
    obtain ⟨id1, -, id2, -, j1, -, j2, -, rfl⟩ := hr
    unfold history
    rw [houts]
    simp only [swapAt_apply]
    split
    · rfl
    · split
      · rfl
      · rfl
  -- the keyed parts go with the row, whatever the masks are
  have hkeyed : ∀ j, (b.samplingRow j).bad_words_token_ids = (if j = i2 then s.batch.samplingRow i1
      else if j = i1 then s.batch.samplingRow i2 else s.batch.samplingRow j).bad_words_token_ids ∧
      (b.samplingRow j).min_tokens = (if j = i2 then s.batch.samplingRow i1
      else if j = i1 then s.batch.samplingRow i2 else s.batch.samplingRow j).min_tokens := by
    intro j
    rw [hrow]
    split
    · exact ⟨rfl, rfl⟩
    · exact ⟨rfl, rfl⟩
  refine ⟨hholes, h.ascending, fun j hj => ?_, fun k hk => ?_, fun k hk => ?_⟩
  · obtain ⟨hj1, hj2, hfree⟩ := hvac j hj
    rw [hrow, if_neg hj2, if_neg hj1]
    exact h.vacated j hfree
  · rw [hsets]
    exact h.absent k fun hm => hk ((hmem k).mpr hm)
  · obtain ⟨st, sp, r, row, r1, r2, r3, r4, r5, r6, r7⟩ := h.rows k ((hmem k).mp hk)
    obtain ⟨j, hj⟩ := (Dict.mem_iff _ _).mp hk
    have hbad := hmove _ (fun j => (s.batch.samplingRow j).bad_words_token_ids)
      (fun j => (b.samplingRow j).bad_words_token_ids) (fun j => by
        rw [(hkeyed j).1]
        split
        · rfl
        · split
          · rfl
          · rfl) k
    have hmin := hmove _ (fun j => (s.batch.samplingRow j).min_tokens)
      (fun j => (b.samplingRow j).min_tokens) (fun j => by
        rw [(hkeyed j).2]
        split
        · rfl
        · split
          · rfl
          · rfl) k
    obtain ⟨i, hi, rfl⟩ := Option.map_eq_some_iff.mp r5
    rw [hj, hi] at hbad hmin
    refine ⟨st, sp, r, b.samplingRow j, r1, r2, (hmove _ _ _ hhistory k).trans r3, r4,
      by rw [sampling, hj]; rfl, ?_, ?_⟩
    · exact (Option.some.inj hbad).trans r6
    · exact (Option.some.inj hmin).trans r7

theorem held_from_input_batch (cfg : RunnerConfig) {s : BatchState T} (h : Held cfg s)
    {outs : OutRef → List Token} {padded_num_reqs : Nat} {vocab_size : Option Nat}
    {md : SamplingMetadata} {b : InputBatch T} (hfull : s.empty_req_indices = [])
    (hr : SamplingMetadata.from_input_batch s.batch outs cfg.vocab_size padded_num_reqs
      vocab_size = some (md, b)) : Held cfg { s with batch := b } := by
  obtain ⟨f1, f2, f3, f4, f5, f6⟩ := from_input_batch_frame hr
  have hholes : b.Holes s.empty_req_indices :=
    ⟨⟨by rw [f1, f2]; exact h.holes.indexed.inverse, by rw [f1, f3]; exact h.holes.indexed.length⟩,
      h.holes.nodup, fun i => by rw [f1]; exact h.holes.vacant i,
      by rw [num_reqs, f1, f2]; exact h.holes.count⟩
  have hall : s.batch.Full := by
    have hs := h.holes
    rwa [hfull] at hs
  have hs : ∀ k, b.sampling k = s.batch.sampling k := by
    intro k
    unfold sampling
    rw [f2]
    cases hk : s.batch.req_id_to_index.lookup k with
    | none => rfl
    | some i =>
        have hlt : i < s.batch.num_reqs := hall.lt_num_reqs hk
        rw [Option.map_some, Option.map_some, f5 i hlt]
  refine ⟨hholes, h.ascending, fun i hi => f6 i (h.vacated i (by rwa [f2] at hi)),
    fun k hk => ?_, fun k hk => ?_⟩
  · rw [f4]
    exact h.absent k (by rwa [f2] at hk)
  · obtain ⟨st, sp, r, row, r1, r2, r3, r4, r5, r6⟩ := h.rows k (by rwa [f2] at hk)
    refine ⟨st, sp, r, row, r1, r2, ?_, r4, (hs k).trans r5, r6⟩
    obtain ⟨te, mi, tk, tp, pr, fr, re, rfl⟩ := SamplingMetadata.from_input_batch_batch hr
    exact r3

theorem held_step [SwapDictValues] (cfg : RunnerConfig) {s s' : BatchState T} {op : BatchOp}
    (h : Held cfg s) (hproper : Proper cfg s op) (hstep : s.step cfg op = some s') :
    Held cfg s' := by
  cases op with
  | remove_request id =>
      obtain ⟨⟨r, b⟩, hr, he⟩ := Option.bind_eq_some_iff.mp hstep
      cases he
      exact held_remove_request cfg h hr
  | add_request outs st =>
      simp only [step, Runner.popLast_eq] at hstep
      obtain ⟨b, hr, he⟩ := Option.bind_eq_some_iff.mp hstep
      cases he
      exact held_add_request cfg h hproper hr
  | condense =>
      cases hstep
      exact held_condense cfg h
  | swap_states i1 i2 =>
      obtain ⟨b, hr, he⟩ := Option.bind_eq_some_iff.mp hstep
      cases he
      exact held_swap_states cfg h hr
  | from_input_batch outs padded_num_reqs vocab_size =>
      obtain ⟨⟨md, b⟩, hr, he⟩ := Option.bind_eq_some_iff.mp hstep
      cases he
      exact held_from_input_batch cfg h hproper hr

section Tensors

variable {cfg : RunnerConfig} {b b' : InputBatch T} {outs : OutRef → List Token}
  {padded_num_reqs : Nat} {vocab_size : Option Nat} {md : SamplingMetadata}

omit [BlockTable T]

-- Where the tensors of the histories come from.
theorem from_input_batch_tensors (h : SamplingMetadata.from_input_batch b outs cfg.vocab_size
    padded_num_reqs vocab_size = some (md, b')) :
    md.bad_words_mask =
      (SamplingMetadata.base b outs cfg.vocab_size padded_num_reqs).bad_words_mask ∧
    md.min_tokens_mask =
      (SamplingMetadata.base b outs cfg.vocab_size padded_num_reqs).min_tokens_mask ∧
    (∀ t ∈ md.output_token_counts, t = fun i token => (b.outputs outs i).count token) ∧
    md.prompt_token_mask = if b.no_penalties then none else vocab_size.map fun v i token =>
      decide (token < v) && decide (token ∈
        (List.range (b.num_prompt_tokens i)).map (b.token_ids_cpu i)) := by
  have heq := SamplingMetadata.from_input_batch_eq h
  dsimp only at heq
  split at heq
  · rename_i hearly
    cases heq
    simp only [SamplingMetadata.returns_early, Bool.and_eq_true] at hearly
    obtain ⟨⟨⟨⟨⟨⟨-, hno⟩, -⟩, -⟩, -⟩, -⟩, -⟩ := hearly
    rw [if_pos hno]
    exact ⟨rfl, rfl, fun t ht => (by cases ht), rfl⟩
  · obtain rfl : md = _ := congrArg Prod.fst heq
    unfold SamplingMetadata.with_params
    cases b.no_penalties with
    | true => exact ⟨rfl, rfl, fun t ht => (by cases ht), rfl⟩
    | false =>
        cases vocab_size with
        | none => exact ⟨rfl, rfl, fun t ht => (by cases ht), rfl⟩
        | some v =>
            refine ⟨rfl, rfl, fun t ht => ?_, rfl⟩
            cases ht
            rfl

end Tensors

theorem range_map_of_prefix {α : Type} {prompt : List α} {n : Nat} {f : Nat → α}
    (h : prompt <+: (List.range n).map f) : (List.range prompt.length).map f = prompt := by
  have htake := List.prefix_iff_eq_take.mp h
  have hle := h.length_le
  rw [List.length_map, List.length_range] at hle
  rw [← List.map_take, List.take_range, Nat.min_eq_left hle] at htake
  exact htake.symm

-- The tensors of a row are built from the histories of the request in it.
theorem Held.masksRow {cfg : RunnerConfig} {s : BatchState T} (h : Held cfg s)
    {outs : OutRef → List Token} {padded_num_reqs : Nat} {vocab_size : Option Nat}
    {md : SamplingMetadata} {b : InputBatch T}
    (hmd : SamplingMetadata.from_input_batch s.batch outs cfg.vocab_size padded_num_reqs
      vocab_size = some (md, b)) {id : ReqId} {i : Nat}
    (hi : s.batch.req_id_to_index.lookup id = some i) (hlt : i < padded_num_reqs) :
    ∃ st sp, s.owner id = some st ∧ st.sampling_params = some sp ∧
      MasksRow cfg md vocab_size i st sp (outs st.output_token_ids) := by
  obtain ⟨hbad, hmin, hcounts, hprompt⟩ := from_input_batch_tensors hmd
  obtain ⟨st, sp, r, row, r1, r2, r3, r4, r5, r6, r7⟩ :=
    h.rows id ((Dict.mem_iff _ _).mpr ⟨i, hi⟩)
  rw [hi, Option.map_some, Option.some.injEq] at r3
  rw [sampling, hi, Option.map_some, Option.some.injEq] at r5
  subst r3
  subst r5
  have hout : s.batch.outputs outs i = outs st.output_token_ids := by
    have hr : (s.batch.req_output_token_ids[i]?).join = some st.output_token_ids :=
      r4.output_token_ids
    rw [outputs, hr]
  refine ⟨st, sp, r1, r2, fun token htoken => ?_, fun token htoken => ?_,
    fun t ht token => ?_, fun t ht v hv token htoken => ?_⟩
  · rw [hbad, base_bad_words, hout, ← SamplingMetadata.bad_words_row_iff htoken, ← r6]
    rfl
  · rw [hmin, base_min_tokens hlt, hout, ← SamplingMetadata.min_tokens_row_iff htoken, ← r7]
    rfl
  · rw [hcounts t ht]
    dsimp only
    rw [hout]
  · rw [hprompt] at ht
    split at ht
    · cases ht
    · rw [hv, Option.map_some] at ht
      cases ht
      have htokens := range_map_of_prefix r4.token_ids
      have hnum : s.batch.num_prompt_tokens i = st.prompt_token_ids.length :=
        r4.num_prompt_tokens
      dsimp only
      rw [hnum, htokens]
      simp only [htoken, decide_true, Bool.true_and, decide_eq_true_eq]

theorem held_reachable [SwapDictValues] (cfg : RunnerConfig) (memory : InputBatch T)
    {s : BatchState T} (h : Run.Reachable (step cfg) (Proper cfg) (init memory) s) :
    Held cfg s :=
  h.invariant (Held cfg) (held_init cfg memory)
    fun _ _ _ hs hok hstep => held_step cfg hs hok hstep

section Example

open Runner (twoRows oneGroup newReq new_state greedy)

-- A request with a penalty and a bad word.
def addPenalised (req_id : ReqId) : BatchOp :=
  .add_request (fun _ => []) { new_state 0 (newReq req_id [7] [1]) greedy with
    sampling_params := some { greedy with
      presence_penalty := 1, bad_words_token_ids := some [[5]] } }

def onePenalised : BatchState DenseTable :=
  (Run.exec (step twoRows) (Proper twoRows) (init oneGroup) [addPenalised "A"]).get (by decide)

def oneMetadata : SamplingMetadata × InputBatch DenseTable :=
  (SamplingMetadata.from_input_batch onePenalised.batch (fun _ => []) twoRows.vocab_size 2
    (some 100)).get (by decide)

theorem onePenalised_reachable :
    Run.Reachable (step twoRows) (Proper twoRows) (init oneGroup) onePenalised :=
  .of_exec [addPenalised "A"] .start (Option.some_get _).symm

theorem oneMetadata_eq : SamplingMetadata.from_input_batch onePenalised.batch (fun _ => [])
    twoRows.vocab_size 2 (some 100) = some (oneMetadata.1, oneMetadata.2) := by
  rw [Prod.mk.eta, oneMetadata, Option.some_get]

-- The second request leaves, and its prompt stays in the row behind the first.
def shrinking : List BatchOp :=
  [addPenalised "A", addPenalised "B", .remove_request "B", .condense]

def afterShrinking : BatchState DenseTable :=
  (Run.exec (step twoRows) (Proper twoRows) (init oneGroup) shrinking).get (by decide)

def staleMetadata : SamplingMetadata × InputBatch DenseTable :=
  (SamplingMetadata.from_input_batch afterShrinking.batch (fun _ => []) twoRows.vocab_size 2
    (some 100)).get (by decide)

end Example

end BatchState

end TTXla.VllmTT
