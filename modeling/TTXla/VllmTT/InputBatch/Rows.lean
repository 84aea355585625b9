import TTXla.VllmTT.InputBatch

namespace TTXla.VllmTT

theorem map_range_writeAt {α : Type} (row : Nat → α) (p o : List α) :
    (List.range (p.length + o.length)).map (writeAt (writeAt row 0 p) p.length o) = p ++ o := by
  apply List.ext_getElem
  · simp
  · intro j h1 h2
    simp only [List.length_map, List.length_range] at h1
    simp only [List.getElem_map, List.getElem_range, writeAt, Nat.zero_le, ite_true, Nat.sub_zero]
    rw [List.getElem_append]
    split
    · have : j - p.length < o.length := by omega
      simp [this, show ¬j < p.length by omega]
    · have : j < p.length := by omega
      simp [this]

theorem npAssign_of_le {α : Type} (width : Nat) (row : Nat → α) (start : Nat) (vals : List α)
    (h : start + vals.length ≤ width) :
    npAssign width row start vals = some (writeAt row start vals) := by
  simp [npAssign, h]

namespace InputBatch

variable {T : Type} [BlockTable T]

-- What a batch row holds of its request, apart from the sampling state.
@[ext] structure Row where
  num_tokens : Nat
  num_prompt_tokens : Nat
  num_computed_tokens : Nat
  token_ids : List Token
  blocks : Nat → List Nat
  output_token_ids : Option OutRef

def row (b : InputBatch T) (i : Nat) : Row where
  num_tokens := b.num_tokens i
  num_prompt_tokens := b.num_prompt_tokens i
  num_computed_tokens := b.num_computed_tokens_cpu i
  token_ids := (List.range (b.num_tokens i)).map (b.token_ids_cpu i)
  blocks := fun g =>
    if g < BlockTable.groups b.block_table then BlockTable.blocks b.block_table g i else []
  output_token_ids := (b.req_output_token_ids[i]?).join

-- The sampling state of a batch row.
@[ext] structure SamplingRow where
  temperature : ℚ
  top_p : ℚ
  top_k : Int
  min_p : ℚ
  frequency_penalty : ℚ
  presence_penalty : ℚ
  repetition_penalty : ℚ
  logit_bias : Option (Dict Token ℚ)
  allowed_token_ids_mask : Token → Bool
  bad_words_token_ids : Option (List (List Token))
  min_tokens : Option (Nat × Finset Token)
  generator : Option Generator

-- The row of the allowed-token mask; before its allocation nothing is masked.
def maskRow (b : InputBatch T) (i : Nat) : Token → Bool :=
  match b.allowed_token_ids_mask_cpu_tensor with
  | none => fun _ => false
  | some mask => mask i

def samplingRow (b : InputBatch T) (i : Nat) : SamplingRow where
  temperature := b.temperature_cpu i
  top_p := b.top_p_cpu i
  top_k := b.top_k_cpu i
  min_p := b.min_p_cpu i
  frequency_penalty := b.frequency_penalties_cpu i
  presence_penalty := b.presence_penalties_cpu i
  repetition_penalty := b.repetition_penalties_cpu i
  logit_bias := b.logit_bias i
  allowed_token_ids_mask := b.maskRow i
  bad_words_token_ids := b.bad_words_token_ids.lookup i
  min_tokens := b.min_tokens.lookup i
  generator := b.generators.lookup i

-- The row lists and the index fit together.
structure Indexed (b : InputBatch T) : Prop where
  inverse : Slots.Inverse b.req_ids b.req_id_to_index
  length : b.req_output_token_ids.length = b.req_ids.length

section Add

variable (cfg : BatchConfig) (outs : OutRef → List Token) (b : InputBatch T)
  (st : CachedRequestState)

-- The stages of `add_request`.
theorem add_request_stages {req_index : Option Nat} {b' : InputBatch T}
    (h : b.add_request cfg outs st req_index = some b') :
    ∃ i b₁ b₂ b₃ b₄, i = req_index.getD b.num_reqs ∧ i < cfg.max_num_reqs ∧
      b.set_req_id st i = some b₁ ∧ b₁.copy_token_ids cfg outs st i = some b₂ ∧
      b₂.add_block_row st i = some b₃ ∧ b₃.set_params cfg st i = some b₄ ∧
      b' = b₄.set_lora st i := by
  simp only [add_request, Option.bind_eq_bind, Option.bind_eq_some_iff, Option.pure_def,
    Option.some.injEq, Option.guard_eq_some'] at h
  obtain ⟨_, hlt, b₁, h1, b₂, h2, b₃, h3, b₄, h4, h5⟩ := h
  exact ⟨_, b₁, b₂, b₃, b₄, rfl, hlt, h1, h2, h3, h4, h5.symm⟩

omit [BlockTable T] in
-- `set_req_id` touches the two row lists and the index only.
theorem set_req_id_eq {i : Nat} {b' : InputBatch T} (h : b.set_req_id st i = some b') :
    ∃ ids out, b' = { b with
        req_ids := ids
        req_output_token_ids := out
        req_id_to_index := b.req_id_to_index.insert st.req_id i } ∧
      ((i = b.req_ids.length ∧ ids = b.req_ids ++ [some st.req_id] ∧
          out = b.req_output_token_ids ++ [some st.output_token_ids]) ∨
        (i < b.req_ids.length ∧ ids = b.req_ids.set i (some st.req_id) ∧
          out = b.req_output_token_ids.set i (some st.output_token_ids))) := by
  unfold set_req_id at h
  split at h
  · rename_i hi
    exact ⟨_, _, (Option.some.inj h).symm, Or.inl ⟨hi, rfl, rfl⟩⟩
  · split at h
    · rename_i hi
      exact ⟨_, _, (Option.some.inj h).symm, Or.inr ⟨hi, rfl, rfl⟩⟩
    · cases h

theorem row_set_req_id {i : Nat} {b' : InputBatch T} (hl : b.Indexed)
    (h : b.set_req_id st i = some b') :
    (∀ j, j ≠ i → b'.row j = b.row j) ∧
      b'.row i = { b.row i with output_token_ids := some st.output_token_ids } := by
  obtain ⟨ids, out, rfl, hcase⟩ := set_req_id_eq b st h
  have hout : out[i]? = some (some st.output_token_ids) ∧ ∀ j, j ≠ i →
      (out[j]?).join = (b.req_output_token_ids[j]?).join := by
    rcases hcase with ⟨rfl, -, rfl⟩ | ⟨hlt, -, rfl⟩
    · refine ⟨by rw [← hl.length]; simp, fun j hj => ?_⟩
      by_cases hjl : j < b.req_output_token_ids.length
      · rw [List.getElem?_append_left hjl]
      · have := hl.length
        rw [List.getElem?_eq_none (l := b.req_output_token_ids) (by omega),
          List.getElem?_eq_none (by rw [List.length_append, List.length_singleton]; omega)]
    · have := hl.length
      refine ⟨by rw [List.getElem?_set_self (by omega)], fun j hj => ?_⟩
      rw [List.getElem?_set_ne (Ne.symm hj)]
  refine ⟨fun j hj => ?_, ?_⟩
  · ext1 <;> simp only [row]
    exact hout.2 j hj
  · ext1 <;> simp only [row]
    rw [hout.1]; rfl

-- `copy_token_ids` touches the token row and the counters of one row only.
theorem row_copy_token_ids {i : Nat} {b' : InputBatch T}
    (hfit : st.num_tokens outs ≤ cfg.max_model_len)
    (h : b.copy_token_ids cfg outs st i = some b') :
    (∀ j, j ≠ i → b'.row j = b.row j) ∧
      b'.row i = { b.row i with
        num_tokens := st.num_tokens outs
        num_prompt_tokens := st.prompt_token_ids.length
        num_computed_tokens := st.num_computed_tokens
        token_ids := st.history outs } := by
  have hp : 0 + st.prompt_token_ids.length ≤ cfg.max_model_len := by
    simp only [CachedRequestState.num_tokens] at hfit; omega
  simp only [copy_token_ids, npAssign_of_le _ _ _ _ hp, Option.bind_eq_bind, Option.bind_some,
    npAssign_of_le cfg.max_model_len _ st.prompt_token_ids.length (outs st.output_token_ids) hfit,
    Option.pure_def, Option.some.injEq] at h
  subst h
  refine ⟨fun j hj => ?_, ?_⟩
  · ext1 <;> simp [row, Function.update_of_ne hj]
  · ext1 <;> simp [row]
    exact map_range_writeAt _ _ _

theorem row_add_block_row {i : Nat} {b' : InputBatch T} (h : b.add_block_row st i = some b') :
    (∀ j, j ≠ i → b'.row j = b.row j) ∧
      b'.row i = { b.row i with blocks := (b'.row i).blocks } ∧
      BlockTable.groups b'.block_table = BlockTable.groups b.block_table ∧
      ∀ g < BlockTable.groups b.block_table, st.block_ids[g]? = some ((b'.row i).blocks g) := by
  unfold add_block_row at h
  split at h
  · obtain ⟨t, ht, hb⟩ := Option.bind_eq_some_iff.mp h
    cases hb
    have hg := (BlockTable.add_row_spec ht).1
    refine ⟨fun j hj => ?_, rfl, hg, fun g hlt => ?_⟩
    · ext1 <;> simp only [row, hg]
      funext g
      split
      · rename_i hlt
        exact (BlockTable.blocks_add_row ht g hlt).2 j hj
      · rfl
    · simp only [row, hg, hlt, ite_true]
      exact (BlockTable.blocks_add_row ht g hlt).1
  · cases h
    exact ⟨fun _ _ => rfl, rfl, rfl, fun g hg => by omega⟩

-- `set_params` and `set_lora` do not touch what `row` reads, nor the index.
theorem set_params_frame {i : Nat} {b' : InputBatch T} (h : b.set_params cfg st i = some b') :
    b'.req_ids = b.req_ids ∧ b'.req_id_to_index = b.req_id_to_index ∧
      b'.req_output_token_ids = b.req_output_token_ids ∧ b'.block_table = b.block_table ∧
      ∀ j, b'.row j = b.row j := by
  unfold set_params at h
  split at h <;> cases h <;> exact ⟨rfl, rfl, rfl, rfl, fun _ => rfl⟩

theorem set_lora_frame (i : Nat) :
    (b.set_lora st i).req_ids = b.req_ids ∧
      (b.set_lora st i).req_id_to_index = b.req_id_to_index ∧
      (b.set_lora st i).req_output_token_ids = b.req_output_token_ids ∧
      (b.set_lora st i).block_table = b.block_table ∧
      (∀ j, (b.set_lora st i).row j = b.row j) ∧
      ∀ j, (b.set_lora st i).samplingRow j = b.samplingRow j := by
  unfold set_lora
  split <;> exact ⟨rfl, rfl, rfl, rfl, fun _ => rfl, fun _ => rfl⟩

-- The row a request gets, when its tokens fit in a row of the token buffer.
structure AddedRow (outs : OutRef → List Token) (st : CachedRequestState) (groups : Nat)
    (r : Row) : Prop where
  num_tokens : r.num_tokens = st.num_tokens outs
  num_prompt_tokens : r.num_prompt_tokens = st.prompt_token_ids.length
  num_computed_tokens : r.num_computed_tokens = st.num_computed_tokens
  token_ids : r.token_ids = st.history outs
  blocks : ∀ g < groups, st.block_ids[g]? = some (r.blocks g)
  output_token_ids : r.output_token_ids = some st.output_token_ids

theorem row_add_request {req_index : Option Nat} {b' : InputBatch T} (hl : b.Indexed)
    (hfit : st.num_tokens outs ≤ cfg.max_model_len)
    (h : b.add_request cfg outs st req_index = some b') :
    (∀ j, j ≠ req_index.getD b.num_reqs → b'.row j = b.row j) ∧
      BlockTable.groups b'.block_table = BlockTable.groups b.block_table ∧
      AddedRow outs st (BlockTable.groups b.block_table)
        (b'.row (req_index.getD b.num_reqs)) := by
  obtain ⟨i, b₁, b₂, b₃, b₄, hi, -, h1, h2, h3, h4, rfl⟩ := add_request_stages cfg outs b st h
  rw [← hi]
  obtain ⟨_, _, hb₁, _⟩ := set_req_id_eq b st h1
  have hg₁ : b₁.block_table = b.block_table := by rw [hb₁]
  have hg₂ : b₂.block_table = b₁.block_table := by
    simp only [copy_token_ids, Option.bind_eq_bind, Option.bind_eq_some_iff, Option.pure_def,
      Option.some.injEq] at h2
    obtain ⟨_, _, _, _, rfl⟩ := h2
    rfl
  obtain ⟨r1, r1'⟩ := row_set_req_id b st hl h1
  obtain ⟨r2, r2'⟩ := row_copy_token_ids cfg outs b₁ st hfit h2
  obtain ⟨r3, r3', hg₃, hblk⟩ := row_add_block_row b₂ st h3
  obtain ⟨-, -, -, hg₄, r4⟩ := set_params_frame cfg b₃ st h4
  obtain ⟨-, -, -, hg₅, r5, -⟩ := set_lora_frame b₄ st i
  have hrow : (b₄.set_lora st i).row i = b₃.row i := (r5 i).trans (r4 i)
  refine ⟨fun j hj => ?_, by rw [hg₅, hg₄, hg₃, hg₂, hg₁], ?_⟩
  · rw [r5, r4, r3 j hj, r2 j hj, r1 j hj]
  · rw [hrow, r3', r2', r1']
    refine ⟨rfl, rfl, rfl, rfl, fun g hg => ?_, rfl⟩
    exact hblk g (by rw [hg₂, hg₁]; exact hg)

theorem indexed_add_request {req_index : Option Nat} {b' : InputBatch T} (hl : b.Indexed)
    (hid : st.req_id ∉ b.req_id_to_index)
    (hvacant : ∀ i, req_index = some i → b.req_ids[i]? = some none)
    (happend : req_index = none → b.num_reqs = b.req_ids.length)
    (h : b.add_request cfg outs st req_index = some b') :
    b'.Indexed ∧ b'.req_id_to_index =
        b.req_id_to_index.insert st.req_id (req_index.getD b.num_reqs) ∧
      (∀ i, req_index = some i → b'.req_ids = b.req_ids.set i (some st.req_id)) ∧
      (req_index = none → b'.req_ids = b.req_ids ++ [some st.req_id]) := by
  obtain ⟨i, b₁, b₂, b₃, b₄, hi, -, h1, h2, h3, h4, rfl⟩ := add_request_stages cfg outs b st h
  obtain ⟨ids, out, hb₁, hcase⟩ := set_req_id_eq b st h1
  have e2 : b₂.req_ids = b₁.req_ids ∧ b₂.req_id_to_index = b₁.req_id_to_index ∧
      b₂.req_output_token_ids = b₁.req_output_token_ids := by
    simp only [copy_token_ids, Option.bind_eq_bind, Option.bind_eq_some_iff, Option.pure_def,
      Option.some.injEq] at h2
    obtain ⟨_, _, _, _, rfl⟩ := h2
    exact ⟨rfl, rfl, rfl⟩
  have e3 : b₃.req_ids = b₂.req_ids ∧ b₃.req_id_to_index = b₂.req_id_to_index ∧
      b₃.req_output_token_ids = b₂.req_output_token_ids := by
    unfold add_block_row at h3
    split at h3
    · obtain ⟨t, _, hb⟩ := Option.bind_eq_some_iff.mp h3
      cases hb
      exact ⟨rfl, rfl, rfl⟩
    · cases h3; exact ⟨rfl, rfl, rfl⟩
  obtain ⟨e4, e4', e4'', -⟩ := set_params_frame cfg b₃ st h4
  obtain ⟨e5, e5', e5'', -⟩ := set_lora_frame b₄ st i
  have hrows : (b₄.set_lora st i).req_ids = ids := by rw [e5, e4, e3.1, e2.1, hb₁]
  have hidx : (b₄.set_lora st i).req_id_to_index = b.req_id_to_index.insert st.req_id i := by
    rw [e5', e4', e3.2.1, e2.2.1, hb₁]
  have hout : (b₄.set_lora st i).req_output_token_ids = out := by
    rw [e5'', e4'', e3.2.2, e2.2.2, hb₁]
  have hlen := hl.length
  cases req_index with
  | some k =>
      obtain rfl : i = k := hi
      have hv := hvacant i rfl
      have hlt : i < b.req_ids.length := (List.getElem?_eq_some_iff.mp hv).1
      rcases hcase with ⟨he, -, -⟩ | ⟨-, rfl, rfl⟩
      · omega
      · refine ⟨⟨?_, by rw [hout, hrows]; simp [hlen]⟩, hidx, ?_, fun hc => by cases hc⟩
        · rw [hrows, hidx]
          exact hl.inverse.fill hid hv
        · rintro _ ⟨⟩; exact hrows
  | none =>
      obtain rfl : i = b.num_reqs := hi
      have hn := happend rfl
      rcases hcase with ⟨-, rfl, rfl⟩ | ⟨he, -, -⟩
      · refine ⟨⟨?_, by rw [hout, hrows]; simp [hlen]⟩, hidx, ?_, fun _ => hrows⟩
        · rw [hrows, hidx, hn]
          exact hl.inverse.append hid
        · rintro _ ⟨⟩
      · omega

end Add

section Remove

variable (cfg : BatchConfig) (b : InputBatch T)

omit [BlockTable T] in
-- What `remove_request` does to an id that is in the batch, up to the LoRA maps.
theorem remove_request_eq {id : ReqId} {i : Nat} {r : Option Nat} {b' : InputBatch T}
    (hi : b.req_id_to_index.lookup id = some i)
    (h : b.remove_request cfg id = some (r, b')) :
    r = some i ∧ ∃ lm li lr, b' =
      let b₀ := { b with
        req_id_to_index := b.req_id_to_index.erase id
        req_ids := b.req_ids.set i none
        req_output_token_ids := b.req_output_token_ids.set i none
        request_lora_mapping := lm
        lora_id_to_request_ids := li
        lora_id_to_lora_request := lr }
      if cfg.is_pooling_model then { b₀ with pooling_params := b.pooling_params.erase id }
      else b₀.reset_sampling id i := by
  simp only [remove_request, hi, Option.bind_eq_bind, Option.bind_eq_some_iff] at h
  obtain ⟨b₁, h1, h2⟩ := h
  have hlora : ∃ lm li lr, b₁ = { b with
      req_id_to_index := b.req_id_to_index.erase id
      req_ids := b.req_ids.set i none
      req_output_token_ids := b.req_output_token_ids.set i none
      request_lora_mapping := lm
      lora_id_to_request_ids := li
      lora_id_to_lora_request := lr } := by
    simp only [remove_lora] at h1
    split at h1
    · obtain ⟨ids, _, h1⟩ := Option.bind_eq_some_iff.mp h1
      split at h1
      · obtain ⟨_, _, h1⟩ := Option.bind_eq_some_iff.mp h1
        exact ⟨_, _, _, (Option.some.inj h1).symm⟩
      · exact ⟨_, _, _, (Option.some.inj h1).symm⟩
    · exact ⟨_, _, _, (Option.some.inj h1).symm⟩
  obtain ⟨lm, li, lr, rfl⟩ := hlora
  split at h2
  · rename_i hp
    cases h2
    exact ⟨rfl, lm, li, lr, by simp [hp]⟩
  · rename_i hp
    cases h2
    exact ⟨rfl, lm, li, lr, by simp [hp]⟩

omit [BlockTable T] in
theorem remove_request_absent {id : ReqId} {r : Option Nat} {b' : InputBatch T}
    (hi : b.req_id_to_index.lookup id = none) (h : b.remove_request cfg id = some (r, b')) :
    r = none ∧ b' = b := by
  simp only [remove_request, hi, Option.some.injEq, Prod.mk.injEq] at h
  exact ⟨h.1.symm, h.2.symm⟩

theorem row_remove_request {id : ReqId} {i : Nat} {r : Option Nat} {b' : InputBatch T}
    (hl : b.Indexed) (hi : b.req_id_to_index.lookup id = some i)
    (h : b.remove_request cfg id = some (r, b')) :
    b'.Indexed ∧ b'.req_id_to_index = b.req_id_to_index.erase id ∧
      b'.req_ids = b.req_ids.set i none ∧
      BlockTable.groups b'.block_table = BlockTable.groups b.block_table ∧
      ∀ j, j ≠ i → b'.row j = b.row j := by
  obtain ⟨-, lm, li, lr, hb⟩ := remove_request_eq cfg b hi h
  have hinv := hl.inverse.erase hi
  have hlen := hl.length
  have hrow : ∀ j, j ≠ i → ((b.req_output_token_ids.set i none)[j]?).join =
      (b.req_output_token_ids[j]?).join := fun j hj => by
    rw [List.getElem?_set_ne (Ne.symm hj)]
  subst hb
  split
  all_goals
    refine ⟨⟨hinv, ?_⟩, rfl, rfl, rfl, fun j hj => ?_⟩
    · simpa only [reset_sampling, List.length_set] using hlen
    · ext1 <;> first | rfl | exact hrow j hj

end Remove

section Move

variable (b : InputBatch T)

theorem row_condense_move {src dst : Nat} {id : ReqId} (hl : b.Indexed)
    (hs : b.req_ids[src]? = some (some id)) (hd : b.req_ids[dst]? = some none) :
    let b' := b.condense_move src dst
    b'.Indexed ∧ b'.req_ids = (b.req_ids.set dst (some id)).set src none ∧
      b'.req_id_to_index = b.req_id_to_index.insert id dst ∧
      BlockTable.groups b'.block_table = BlockTable.groups b.block_table ∧
      b'.row dst = b.row src ∧ ∀ j, j ≠ dst → j ≠ src → b'.row j = b.row j := by
  have hlen := hl.length
  have hsd : src ≠ dst := by rintro rfl; rw [hs] at hd; simp at hd
  have hld : dst < b.req_ids.length := (List.getElem?_eq_some_iff.mp hd).1
  intro b'
  have hb' : b' = b.condense_move src dst := rfl
  simp only [condense_move, hs, Option.join_some] at hb'
  have hinv := hl.inverse.move hs hd
  have hg : BlockTable.groups b'.block_table = BlockTable.groups b.block_table := by
    rw [hb']
    dsimp only
    split
    · exact (BlockTable.move_row_spec _ _ _).1
    · rfl
  have hblk : ∀ g, g < BlockTable.groups b.block_table →
      BlockTable.blocks b'.block_table g dst = BlockTable.blocks b.block_table g src ∧
      ∀ j, j ≠ dst → BlockTable.blocks b'.block_table g j =
        BlockTable.blocks b.block_table g j := by
    intro g hlt
    rw [hb']
    dsimp only
    rw [if_pos (by omega)]
    exact BlockTable.blocks_move_row b.block_table src dst g hlt
  refine ⟨?_, by rw [hb'], by rw [hb'], hg, ?_, fun j hjd hjs => ?_⟩
  · rw [hb']
    exact ⟨hinv, by simpa using hlen⟩
  · ext1
    case blocks =>
      funext g
      simp only [row, hg]
      split
      · rename_i hlt; exact (hblk g hlt).1
      · rfl
    case output_token_ids =>
      rw [hb']
      simp only [row]
      rw [List.getElem?_set_ne hsd, List.getElem?_set_self (by omega)]
      rfl
    case token_ids =>
      rw [hb']
      simp only [row, Function.update_self]
      exact List.map_congr_left fun j hj => by simp [List.mem_range.mp hj]
    all_goals rw [hb']; simp [row]
  · ext1
    case blocks =>
      funext g
      simp only [row, hg]
      split
      · rename_i hlt; exact (hblk g hlt).2 j hjd
      · rfl
    case output_token_ids =>
      rw [hb']
      simp only [row]
      rw [List.getElem?_set_ne (Ne.symm hjs), List.getElem?_set_ne (Ne.symm hjd)]
    all_goals rw [hb']; simp [row, Function.update_of_ne hjd]

end Move

end InputBatch

end TTXla.VllmTT
