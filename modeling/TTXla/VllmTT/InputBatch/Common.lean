import TTXla.VllmTT.InputBatch.Rows

-- What a batch holds of its requests, whether they are sampled or pooled.
namespace TTXla.VllmTT.InputBatch

variable {T : Type}

-- The fields that do not depend on the sampling or the pooling parameters.
structure Common (T : Type) where
  req_ids : List (Option ReqId)
  req_id_to_index : Dict ReqId Nat
  token_ids_cpu : Nat → Nat → Token
  num_tokens : Nat → Nat
  num_tokens_no_spec : Nat → Nat
  num_prompt_tokens : Nat → Nat
  num_computed_tokens_cpu : Nat → Nat
  block_table : T
  request_lora_mapping : Nat → Nat
  lora_id_to_request_ids : Dict Nat (Finset ReqId)
  lora_id_to_lora_request : Dict Nat LoRARequest
  req_output_token_ids : List (Option OutRef)

def common (b : InputBatch T) : Common T where
  req_ids := b.req_ids
  req_id_to_index := b.req_id_to_index
  token_ids_cpu := b.token_ids_cpu
  num_tokens := b.num_tokens
  num_tokens_no_spec := b.num_tokens_no_spec
  num_prompt_tokens := b.num_prompt_tokens
  num_computed_tokens_cpu := b.num_computed_tokens_cpu
  block_table := b.block_table
  request_lora_mapping := b.request_lora_mapping
  lora_id_to_request_ids := b.lora_id_to_request_ids
  lora_id_to_lora_request := b.lora_id_to_lora_request
  req_output_token_ids := b.req_output_token_ids

variable [BlockTable T] {b b' : InputBatch T}

-- What two cached states of one request share, if the one is sampled and the other pooled.
structure Twin (st st' : CachedRequestState) : Prop where
  req_id : st'.req_id = st.req_id
  prompt_token_ids : st'.prompt_token_ids = st.prompt_token_ids
  block_ids : st'.block_ids = st.block_ids
  num_computed_tokens : st'.num_computed_tokens = st.num_computed_tokens
  output_token_ids : st'.output_token_ids = st.output_token_ids
  lora_request : st'.lora_request = st.lora_request
  pooled : st'.sampling_params = none ∧ st'.pooling_params.isSome

variable {st st' : CachedRequestState}

omit [BlockTable T] in
theorem set_req_id_common (h : b'.common = b.common) (ht : Twin st st') (i : Nat) :
    (b'.set_req_id st' i).map common = (b.set_req_id st i).map common := by
  cases b
  cases b'
  simp only [common, Common.mk.injEq] at h
  obtain ⟨rfl, rfl, rfl, rfl, rfl, rfl, rfl, rfl, rfl, rfl, rfl, rfl⟩ := h
  unfold set_req_id
  rw [ht.req_id, ht.output_token_ids]
  dsimp only
  split
  · rfl
  · split
    · rfl
    · rfl

omit [BlockTable T] in
theorem copy_token_ids_common (cfg cfg' : BatchConfig) (outs : OutRef → List Token)
    (hlen : cfg'.max_model_len = cfg.max_model_len) (h : b'.common = b.common) (ht : Twin st st')
    (i : Nat) : (b'.copy_token_ids cfg' outs st' i).map common =
      (b.copy_token_ids cfg outs st i).map common := by
  have htokens : st'.num_tokens outs = st.num_tokens outs := by
    simp only [CachedRequestState.num_tokens, ht.prompt_token_ids, ht.output_token_ids]
  cases b
  cases b'
  simp only [common, Common.mk.injEq] at h
  obtain ⟨rfl, rfl, rfl, rfl, rfl, rfl, rfl, rfl, rfl, rfl, rfl, rfl⟩ := h
  unfold copy_token_ids
  rw [htokens, ht.prompt_token_ids, ht.output_token_ids, ht.num_computed_tokens, hlen]
  simp only [Option.bind_eq_bind, Option.map_bind, Function.comp_def, Option.pure_def,
    Option.map_some, common]

theorem add_block_row_common (h : b'.common = b.common) (ht : Twin st st') (i : Nat) :
    (b'.add_block_row st' i).map common = (b.add_block_row st i).map common := by
  cases b
  cases b'
  simp only [common, Common.mk.injEq] at h
  obtain ⟨rfl, rfl, rfl, rfl, rfl, rfl, rfl, rfl, rfl, rfl, rfl, rfl⟩ := h
  unfold add_block_row
  rw [ht.block_ids]
  dsimp only
  split
  · simp only [Option.bind_eq_bind, Option.map_bind, Function.comp_def, Option.pure_def,
      Option.map_some, common]
  · rfl

omit [BlockTable T] in
theorem set_params_common (cfg : BatchConfig) (i : Nat)
    (h : st.sampling_params.isSome ∨ st.pooling_params.isSome) :
    (b.set_params cfg st i).map common = some b.common := by
  unfold set_params
  cases hs : st.sampling_params with
  | some sp => rfl
  | none =>
      cases hp : st.pooling_params with
      | some pp => rfl
      | none => simp [hs, hp] at h

omit [BlockTable T] in
theorem set_lora_common (h : b'.common = b.common) (ht : Twin st st') (i : Nat) :
    (b'.set_lora st' i).common = (b.set_lora st i).common := by
  cases b
  cases b'
  simp only [common, Common.mk.injEq] at h
  obtain ⟨rfl, rfl, rfl, rfl, rfl, rfl, rfl, rfl, rfl, rfl, rfl, rfl⟩ := h
  unfold set_lora
  rw [ht.lora_request, ht.req_id]
  cases st.lora_request with
  | none => rfl
  | some lora => rfl

omit [BlockTable T] in
-- What has the same image has a counterpart.
theorem exists_of_map_common {x y : Option (InputBatch T)} (h : y.map common = x.map common)
    {c : InputBatch T} (hx : x = some c) : ∃ c', y = some c' ∧ c'.common = c.common := by
  rw [hx] at h
  exact Option.map_eq_some_iff.mp h

-- A pooled request is added as a sampled one is.
theorem add_request_common (cfg cfg' : BatchConfig) (outs : OutRef → List Token)
    (hlen : cfg'.max_model_len = cfg.max_model_len) (hreqs : cfg'.max_num_reqs = cfg.max_num_reqs)
    (h : b'.common = b.common) (ht : Twin st st') (i : Option Nat) {c : InputBatch T}
    (hc : b.add_request cfg outs st i = some c) :
    ∃ c', b'.add_request cfg' outs st' i = some c' ∧ c'.common = c.common := by
  obtain ⟨j, b₁, b₂, b₃, b₄, hj, hlt, h1, h2, h3, h4, rfl⟩ := add_request_stages cfg outs b st hc
  have hnum : b'.num_reqs = b.num_reqs := by
    rw [num_reqs, num_reqs, show b'.req_id_to_index = b.req_id_to_index from
      congrArg Common.req_id_to_index h]
  obtain ⟨b₁', h1', hb₁⟩ := exists_of_map_common (set_req_id_common h ht j) h1
  obtain ⟨b₂', h2', hb₂⟩ :=
    exists_of_map_common (copy_token_ids_common cfg cfg' outs hlen hb₁ ht j) h2
  obtain ⟨b₃', h3', hb₃⟩ := exists_of_map_common (add_block_row_common hb₂ ht j) h3
  have hb₄ : b₄.common = b₃.common := by
    have hsome : st.sampling_params.isSome ∨ st.pooling_params.isSome := by
      unfold set_params at h4
      cases hs : st.sampling_params with
      | some sp => exact .inl rfl
      | none =>
          cases hp : st.pooling_params with
          | some pp => exact .inr rfl
          | none => simp [hs, hp] at h4
    have := set_params_common (b := b₃) cfg j hsome
    rw [h4] at this
    exact Option.some.inj this
  obtain ⟨b₄', h4', hb₄'⟩ := Option.map_eq_some_iff.mp
    (set_params_common (b := b₃') cfg' j (.inr ht.pooled.2))
  refine ⟨b₄'.set_lora st' j, ?_, set_lora_common ?_ ht j⟩
  · simp only [add_request, Option.bind_eq_bind, Option.bind_eq_some_iff, Option.pure_def,
      Option.some.injEq, Option.guard_eq_some', hnum, ← hj, hreqs]
    exact ⟨(), hlt, b₁', h1', b₂', h2', b₃', h3', b₄', h4', rfl⟩
  · rw [hb₄', hb₃, hb₄]

omit [BlockTable T] in
theorem remove_lora_common (h : b'.common = b.common) (id : ReqId) (i : Nat) :
    (b'.remove_lora id i).map common = (b.remove_lora id i).map common := by
  cases b
  cases b'
  simp only [common, Common.mk.injEq] at h
  obtain ⟨rfl, rfl, rfl, rfl, rfl, rfl, rfl, rfl, rfl, rfl, rfl, rfl⟩ := h
  unfold remove_lora
  dsimp only
  split
  · simp only [Option.bind_eq_bind, Option.map_bind, Function.comp_def]
    congr 1
    funext ids
    split
    · simp only [Option.map_bind, Function.comp_def, Option.pure_def, Option.map_some, common]
    · rfl
  · rfl

omit [BlockTable T] in
theorem vacate_common (h : b'.common = b.common) (id : ReqId) (i : Nat) :
    InputBatch.common { b' with
      req_id_to_index := b'.req_id_to_index.erase id
      req_ids := b'.req_ids.set i none
      req_output_token_ids := b'.req_output_token_ids.set i none } =
    InputBatch.common { b with
      req_id_to_index := b.req_id_to_index.erase id
      req_ids := b.req_ids.set i none
      req_output_token_ids := b.req_output_token_ids.set i none } := by
  cases b
  cases b'
  simp only [common, Common.mk.injEq] at h
  obtain ⟨rfl, rfl, rfl, rfl, rfl, rfl, rfl, rfl, rfl, rfl, rfl, rfl⟩ := h
  rfl

omit [BlockTable T] in
-- Whatever the kind of the batch, a request is removed from the same row.
theorem remove_request_common (cfg cfg' : BatchConfig) (h : b'.common = b.common) (id : ReqId)
    {r : Option Nat} {c : InputBatch T} (hc : b.remove_request cfg id = some (r, c)) :
    ∃ c', b'.remove_request cfg' id = some (r, c') ∧ c'.common = c.common := by
  have hidx : b'.req_id_to_index = b.req_id_to_index := congrArg Common.req_id_to_index h
  unfold remove_request at hc ⊢
  cases hl : b.req_id_to_index.lookup id with
  | none =>
      rw [hl] at hc
      cases hc
      exact ⟨b', by rw [hidx, hl], h⟩
  | some i =>
      rw [hl] at hc
      obtain ⟨b₁, h1, hc⟩ := Option.bind_eq_some_iff.mp hc
      obtain ⟨b₁', h1', hb₁⟩ :=
        exists_of_map_common (remove_lora_common (vacate_common h id i) id i) h1
      have hsame : r = some i ∧ c.common = b₁.common := by
        split at hc
        · cases hc
          exact ⟨rfl, rfl⟩
        · cases hc
          exact ⟨rfl, rfl⟩
      obtain ⟨rfl, hcommon⟩ := hsame
      rw [hidx, hl]
      dsimp only
      rw [← hidx, h1', hcommon, ← hb₁]
      by_cases hpool : cfg'.is_pooling_model
      · exact ⟨_, if_pos hpool, rfl⟩
      · exact ⟨_, if_neg hpool, rfl⟩

theorem condense_move_common (h : b'.common = b.common) (i j : Nat) :
    (b'.condense_move i j).common = (b.condense_move i j).common := by
  cases b
  cases b'
  simp only [common, Common.mk.injEq] at h
  obtain ⟨rfl, rfl, rfl, rfl, rfl, rfl, rfl, rfl, rfl, rfl, rfl, rfl⟩ := h
  unfold condense_move
  dsimp only
  split
  · rfl
  · rfl

theorem condense_common (h : b'.common = b.common) (empty_req_indices : List Nat) :
    (b'.condense empty_req_indices).common = (b.condense empty_req_indices).common := by
  have hnum : b'.num_reqs = b.num_reqs := by
    rw [num_reqs, num_reqs, show b'.req_id_to_index = b.req_id_to_index from
      congrArg Common.req_id_to_index h]
  have htrim : ∀ (c c' : InputBatch T) (ids : List (Option ReqId))
      (out : List (Option OutRef)), c'.common = c.common →
      InputBatch.common { c' with req_ids := ids, req_output_token_ids := out } =
        InputBatch.common { c with req_ids := ids, req_output_token_ids := out } := by
    intro c c' ids out hc
    simp only [common, Common.mk.injEq] at hc ⊢
    simp only [hc, and_self]
  unfold condense
  simp only [hnum]
  split
  · exact htrim b b' [] [] h
  · have hcompact := Slots.compact_rel (R := fun c c' : InputBatch T => c'.common = c.common)
      (fun c c' src dst hc => condense_move_common hc src dst) h
      (b.num_reqs + empty_req_indices.length - 1) empty_req_indices.reverse
    generalize Slots.compact condense_move b _ _ = c at hcompact ⊢
    generalize Slots.compact condense_move b' _ _ = c' at hcompact ⊢
    unfold trim
    rw [show c'.req_ids = c.req_ids from congrArg Common.req_ids hcompact,
      show c'.req_output_token_ids = c.req_output_token_ids from
        congrArg Common.req_output_token_ids hcompact]
    exact htrim c c' _ _ hcompact

end TTXla.VllmTT.InputBatch
