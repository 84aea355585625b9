import TTXla.VllmTT.InputBatch.Contents
import TTXla.VllmTT.SamplingMetadata

-- The sampling state of the rows, under the operations of the batch.
namespace TTXla.VllmTT.InputBatch

variable {T : Type} [BlockTable T]

-- What the sets and dicts keyed by request id hold of a request.
@[ext] structure SetsRow where
  greedy : Bool
  random : Bool
  top_p : Bool
  top_k : Bool
  min_p : Bool
  frequency_penalties : Bool
  presence_penalties : Bool
  repetition_penalties : Bool
  has_allowed_token_ids : Bool
  num_logprobs : Option Int
  num_prompt_logprobs : Option Int

def setsRow (b : InputBatch T) (id : ReqId) : SetsRow where
  greedy := id ∈ b.greedy_reqs
  random := id ∈ b.random_reqs
  top_p := id ∈ b.top_p_reqs
  top_k := id ∈ b.top_k_reqs
  min_p := id ∈ b.min_p_reqs
  frequency_penalties := id ∈ b.frequency_penalties_reqs
  presence_penalties := id ∈ b.presence_penalties_reqs
  repetition_penalties := id ∈ b.repetition_penalties_reqs
  has_allowed_token_ids := id ∈ b.has_allowed_token_ids
  num_logprobs := b.num_logprobs.lookup id
  num_prompt_logprobs := b.num_prompt_logprobs.lookup id

-- The entry of a request that is in none of them.
def SetsRow.absent : SetsRow :=
  ⟨false, false, false, false, false, false, false, false, false, none, none⟩

section Params

variable (cfg : BatchConfig) (st : CachedRequestState) (sp : SamplingParams)

-- A row of the allowed-token mask: the tokens that are not allowed.
def maskOf : Token → Bool :=
  if sp.allowed_token_ids.getD [] ≠ [] then
    fun token => !(sp.allowed_token_ids.getD []).contains token
  else fun _ => false

def badWordsOf : Option (List (List Token)) :=
  if sp.bad_words_token_ids.getD [] ≠ [] then some (sp.bad_words_token_ids.getD []) else none

def minTokensOf : Option (Nat × Finset Token) :=
  if sp.min_tokens ≠ 0 then some (sp.min_tokens, sp.all_stop_token_ids) else none

-- The sampling state that the parameters of a request call for.
def samplingOf : SamplingRow where
  temperature := if sp.sampling_type = .GREEDY then 0 else sp.temperature
  top_p := sp.top_p
  top_k := if 0 < sp.top_k ∧ sp.top_k < cfg.vocab_size then sp.top_k else cfg.vocab_size
  min_p := sp.min_p
  frequency_penalty := sp.frequency_penalty
  presence_penalty := sp.presence_penalty
  repetition_penalty := sp.repetition_penalty
  logit_bias := sp.logit_bias
  allowed_token_ids_mask := maskOf sp
  bad_words_token_ids := badWordsOf sp
  min_tokens := minTokensOf sp
  generator := st.generator

-- The sampler is asked for as many tokens as there are at most.
theorem samplingOf_top_k_le : (samplingOf cfg st sp).top_k ≤ cfg.vocab_size := by
  unfold samplingOf
  dsimp only
  split
  · rename_i h
    omega
  · exact le_rfl

def setsOf : SetsRow where
  greedy := sp.sampling_type = .GREEDY
  random := sp.sampling_type ≠ .GREEDY
  top_p := sp.top_p < 1
  top_k := 0 < sp.top_k ∧ sp.top_k < cfg.vocab_size
  min_p := sp.min_p > SAMPLING_EPS
  frequency_penalties := sp.frequency_penalty ≠ 0
  presence_penalties := sp.presence_penalty ≠ 0
  repetition_penalties := sp.repetition_penalty ≠ 1
  has_allowed_token_ids := sp.allowed_token_ids.getD [] ≠ []
  num_logprobs := sp.logprobs
  num_prompt_logprobs := sp.prompt_logprobs

-- What `add_request` leaves in a row: optional parts that the request does not set keep
-- what the row held.
def overlay (old : SamplingRow) : SamplingRow :=
  { samplingOf cfg st sp with
    logit_bias := sp.logit_bias.or old.logit_bias
    allowed_token_ids_mask :=
      if sp.allowed_token_ids.getD [] ≠ [] then maskOf sp else old.allowed_token_ids_mask
    bad_words_token_ids := (badWordsOf sp).or old.bad_words_token_ids
    min_tokens := (minTokensOf sp).or old.min_tokens
    generator := st.generator.or old.generator }

-- The row dicts hold nothing for a row.
structure Unkeyed (old : SamplingRow) : Prop where
  bad_words_token_ids : old.bad_words_token_ids = none
  min_tokens : old.min_tokens = none
  generator : old.generator = none

-- Neither a logit bias nor a mask is left where the request sets none.
structure Clean (old : SamplingRow) : Prop where
  logit_bias : sp.logit_bias = none → old.logit_bias = none
  mask : sp.allowed_token_ids.getD [] = [] → old.allowed_token_ids_mask = fun _ => false

theorem overlay_eq_iff {old : SamplingRow} (h : Unkeyed old) :
    overlay cfg st sp old = samplingOf cfg st sp ↔ Clean sp old := by
  have hmask : maskOf sp = (fun _ => false) ∨ sp.allowed_token_ids.getD [] ≠ [] := by
    unfold maskOf
    split
    · right; assumption
    · left; rfl
  rw [SamplingRow.ext_iff]
  simp only [overlay, samplingOf, h.bad_words_token_ids, h.min_tokens, h.generator,
    Option.or_none, and_true, true_and]
  constructor
  · rintro ⟨h1, h2⟩
    refine ⟨fun hn => ?_, fun ha => ?_⟩
    · rwa [hn, Option.none_or] at h1
    · rw [if_neg (not_not.mpr ha)] at h2
      rw [h2]
      exact hmask.resolve_right (not_not.mpr ha)
  · rintro ⟨h1, h2⟩
    constructor
    · cases hb : sp.logit_bias with
      | none => exact h1 hb
      | some bias => rfl
    · split
      · rfl
      · rename_i ha
        rw [h2 (not_not.mp ha)]
        exact (hmask.resolve_right ha).symm

end Params

omit [BlockTable T] in
theorem samplingRow_set_sampling_params (cfg : BatchConfig) (b : InputBatch T)
    (st : CachedRequestState) (sp : SamplingParams) (i j : Nat) :
    (b.set_sampling_params cfg st sp i).samplingRow j =
      if j = i then overlay cfg st sp (b.samplingRow i) else b.samplingRow j := by
  have hmask : (b.set_sampling_params cfg st sp i).maskRow j = if j = i then
      (if sp.allowed_token_ids.getD [] ≠ [] then maskOf sp else b.maskRow i)
      else b.maskRow j := by
    simp only [maskRow, set_sampling_params, maskOf]
    by_cases ha : sp.allowed_token_ids.getD [] = []
    · by_cases hj : j = i <;> simp [ha, hj]
    · cases b.allowed_token_ids_mask_cpu_tensor <;> by_cases hj : j = i <;>
        simp [ha, hj]
  by_cases hj : j = i
  · subst hj
    rw [if_pos rfl] at hmask ⊢
    ext1
    case allowed_token_ids_mask => exact hmask
    case logit_bias =>
      simp only [samplingRow, overlay, set_sampling_params]
      cases sp.logit_bias <;> simp
    case bad_words_token_ids =>
      simp only [samplingRow, overlay, set_sampling_params, badWordsOf]
      split <;> simp
    case min_tokens =>
      simp only [samplingRow, overlay, set_sampling_params, minTokensOf]
      split <;> simp
    case generator =>
      simp only [samplingRow, overlay, set_sampling_params]
      cases st.generator <;> simp
    all_goals simp [samplingRow, overlay, samplingOf, set_sampling_params]
  · rw [if_neg hj] at hmask ⊢
    ext1
    case allowed_token_ids_mask => exact hmask
    case logit_bias =>
      simp only [samplingRow, set_sampling_params]
      cases sp.logit_bias <;> simp [hj]
    case bad_words_token_ids =>
      simp only [samplingRow, set_sampling_params]
      split <;> simp [hj]
    case min_tokens =>
      simp only [samplingRow, set_sampling_params]
      split <;> simp [hj]
    case generator =>
      simp only [samplingRow, set_sampling_params]
      cases st.generator <;> simp [hj]
    all_goals simp [samplingRow, set_sampling_params, hj]

theorem mem_addIf {c : Prop} [Decidable c] {s : Finset ReqId} {id k : ReqId} :
    k ∈ addIf c s id ↔ c ∧ k = id ∨ k ∈ s := by
  unfold addIf
  split <;> simp [*]

omit [BlockTable T] in
theorem setsRow_set_sampling_params (cfg : BatchConfig) (b : InputBatch T)
    (st : CachedRequestState) (sp : SamplingParams) (i : Nat) (k : ReqId)
    (habs : b.setsRow st.req_id = .absent) :
    (b.set_sampling_params cfg st sp i).setsRow k =
      if k = st.req_id then setsOf cfg sp else b.setsRow k := by
  simp only [setsRow, SetsRow.absent, SetsRow.mk.injEq, decide_eq_false_iff_not] at habs
  obtain ⟨a1, a2, a3, a4, a5, a6, a7, a8, a9, a10, a11⟩ := habs
  by_cases hk : k = st.req_id
  · subst hk
    rw [if_pos rfl]
    ext1
    case num_logprobs =>
      simp only [setsRow, setsOf, set_sampling_params]
      cases sp.logprobs <;> simp [a10]
    case num_prompt_logprobs =>
      simp only [setsRow, setsOf, set_sampling_params]
      cases sp.prompt_logprobs <;> simp [a11]
    all_goals
      simp only [setsRow, setsOf, set_sampling_params, mem_addIf, *, and_true, or_false]
  · rw [if_neg hk]
    ext1
    case num_logprobs =>
      simp only [setsRow, set_sampling_params]
      cases sp.logprobs <;> simp [hk]
    case num_prompt_logprobs =>
      simp only [setsRow, set_sampling_params]
      cases sp.prompt_logprobs <;> simp [hk]
    all_goals simp only [setsRow, set_sampling_params, mem_addIf, hk, and_false, false_or]

-- The sampling state of a request, wherever its row lies.
def sampling (b : InputBatch T) (id : ReqId) : Option SamplingRow :=
  (b.req_id_to_index.lookup id).map b.samplingRow

-- The row dicts hold nothing for the rows without a request.
def Vacated (b : InputBatch T) : Prop :=
  ∀ i, (∀ id, b.req_id_to_index.lookup id ≠ some i) → Unkeyed (b.samplingRow i)

theorem add_request_sampling (cfg : BatchConfig) (outs : OutRef → List Token)
    {b b' : InputBatch T} {st : CachedRequestState} {sp : SamplingParams}
    {req_index : Option Nat} (hsp : st.sampling_params = some sp)
    (habs : b.setsRow st.req_id = .absent)
    (hr : b.add_request cfg outs st req_index = some b') :
    (∀ j, b'.samplingRow j = if j = req_index.getD b.num_reqs then
        overlay cfg st sp (b.samplingRow (req_index.getD b.num_reqs)) else b.samplingRow j) ∧
      ∀ k, b'.setsRow k = if k = st.req_id then setsOf cfg sp else b.setsRow k := by
  obtain ⟨i, b₁, b₂, b₃, b₄, hi, -, h1, h2, h3, h4, rfl⟩ := add_request_stages cfg outs b st hr
  obtain ⟨ids, out, rfl, -⟩ := set_req_id_eq b st h1
  simp only [copy_token_ids, Option.bind_eq_bind, Option.bind_eq_some_iff, Option.pure_def,
    Option.some.injEq] at h2
  obtain ⟨_, _, _, _, rfl⟩ := h2
  have h3' : b₃.samplingRow = b.samplingRow ∧ b₃.setsRow = b.setsRow := by
    unfold add_block_row at h3
    split at h3
    · obtain ⟨t, -, hb⟩ := Option.bind_eq_some_iff.mp h3
      cases hb
      exact ⟨rfl, rfl⟩
    · cases h3
      exact ⟨rfl, rfl⟩
  simp only [set_params, hsp, Option.some.injEq] at h4
  subst h4
  have hs : ∀ k, ((b₃.set_sampling_params cfg st sp i).set_lora st i).setsRow k =
      (b₃.set_sampling_params cfg st sp i).setsRow k := by
    intro k
    unfold set_lora
    split <;> rfl
  refine ⟨fun j => ?_, fun k => ?_⟩
  · rw [(set_lora_frame _ st i).2.2.2.2.2 j, samplingRow_set_sampling_params, h3'.1, hi]
  · rw [hs, setsRow_set_sampling_params cfg b₃ st sp i k (by rw [h3'.2]; exact habs), h3'.2]

omit [BlockTable T] in
-- The row a request is added to holds no other request.
theorem add_index_free {b : InputBatch T} {removed : List Nat} (h : b.Holes removed)
    (id : ReqId) : b.req_id_to_index.lookup id ≠ some (removed.getLast?.getD b.num_reqs) := by
  intro hi
  have hocc := (h.indexed.inverse id _).mp hi
  cases hl : removed.getLast? with
  | some i =>
      rw [hl, Option.getD_some, (h.vacant i).mpr (List.mem_of_getLast? hl)] at hocc
      simp at hocc
  | none =>
      have hc := h.count
      rw [List.getLast?_eq_none_iff.mp hl] at hc
      rw [hl, Option.getD_none, List.getElem?_eq_none (by simpa using hc.ge)] at hocc
      simp at hocc

-- The optional parts of the row that the request does not set are those of the row before.
theorem overlay_add_request (cfg : BatchConfig) (outs : OutRef → List Token)
    {b b' : InputBatch T} {removed : List Nat} {st : CachedRequestState} {sp : SamplingParams}
    (h : b.Holes removed) (hvac : b.Vacated) (hsp : st.sampling_params = some sp)
    (hid : st.req_id ∉ b.req_id_to_index) (habs : b.setsRow st.req_id = .absent)
    (hr : b.add_request cfg outs st removed.getLast? = some b') :
    b'.Vacated ∧
      (∀ k, b'.sampling k = if k = st.req_id then
        some (overlay cfg st sp (b.samplingRow (removed.getLast?.getD b.num_reqs)))
        else b.sampling k) ∧
      ∀ k, b'.setsRow k = if k = st.req_id then setsOf cfg sp else b.setsRow k := by
  have hfree := add_index_free h
  have hidx : b'.req_id_to_index =
      b.req_id_to_index.insert st.req_id (removed.getLast?.getD b.num_reqs) := by
    refine (indexed_add_request cfg outs b st h.indexed hid (fun i hi =>
      (h.vacant i).mpr (List.mem_of_getLast? hi)) (fun hn => ?_) hr).2.1
    have hc := h.count
    rw [List.getLast?_eq_none_iff.mp hn] at hc
    simpa using hc
  obtain ⟨hrow, hsets⟩ := add_request_sampling cfg outs hsp habs hr
  generalize removed.getLast?.getD b.num_reqs = i at *
  refine ⟨fun j hj => ?_, fun k => ?_, hsets⟩
  · have hne : j ≠ i := by
      rintro rfl
      exact hj st.req_id (by rw [hidx, Dict.lookup_insert', if_pos rfl])
    rw [hrow, if_neg hne]
    refine hvac j fun id hl => hj id ?_
    have : id ≠ st.req_id := by
      rintro rfl
      exact hid ((Dict.mem_iff _ _).mpr ⟨j, hl⟩)
    rw [hidx, Dict.lookup_insert', if_neg this, hl]
  · unfold sampling
    rw [hidx, Dict.lookup_insert']
    split
    · rw [Option.map_some, hrow, if_pos rfl]
    · cases hl : b.req_id_to_index.lookup k with
      | none => rfl
      | some j =>
          have : j ≠ i := by rintro rfl; exact hfree k hl
          rw [Option.map_some, Option.map_some, hrow, if_neg this]

theorem sampling_add_request (cfg : BatchConfig) (outs : OutRef → List Token)
    {b b' : InputBatch T} {removed : List Nat} {st : CachedRequestState} {sp : SamplingParams}
    (h : b.Holes removed) (hvac : b.Vacated) (hsp : st.sampling_params = some sp)
    (hid : st.req_id ∉ b.req_id_to_index) (habs : b.setsRow st.req_id = .absent)
    (hr : b.add_request cfg outs st removed.getLast? = some b')
    (hclean : Clean sp (b.samplingRow (removed.getLast?.getD b.num_reqs))) :
    b'.Vacated ∧
      (∀ k, b'.sampling k =
        if k = st.req_id then some (samplingOf cfg st sp) else b.sampling k) ∧
      ∀ k, b'.setsRow k = if k = st.req_id then setsOf cfg sp else b.setsRow k := by
  obtain ⟨v1, v2, v3⟩ := overlay_add_request cfg outs h hvac hsp hid habs hr
  rw [(overlay_eq_iff cfg st sp (hvac _ (add_index_free h))).mpr hclean] at v2
  exact ⟨v1, v2, v3⟩

omit [BlockTable T] in
theorem sampling_remove_request (cfg : BatchConfig) {b b' : InputBatch T} {id : ReqId}
    {r : Option Nat} {removed : List Nat} (hpool : cfg.is_pooling_model = false)
    (h : b.Holes removed) (hvac : b.Vacated) (hr : b.remove_request cfg id = some (r, b'))
    (habs : id ∉ b.req_id_to_index → b.setsRow id = .absent) :
    b'.Vacated ∧ (∀ k, b'.sampling k = if k = id then none else b.sampling k) ∧
      ∀ k, b'.setsRow k = if k = id then .absent else b.setsRow k := by
  cases hi : b.req_id_to_index.lookup id with
  | none =>
      obtain ⟨-, rfl⟩ := remove_request_absent cfg b hi hr
      refine ⟨hvac, fun k => ?_, fun k => ?_⟩
      · split
        · rename_i he; subst he; rw [sampling, hi]; rfl
        · rfl
      · split
        · rename_i he; subst he; exact habs (AList.lookup_eq_none.mp hi)
        · rfl
  | some i =>
      obtain ⟨-, lm, li, lr, hb⟩ := remove_request_eq cfg b hi hr
      rw [hpool, if_neg Bool.false_ne_true] at hb
      have hidx : b'.req_id_to_index = b.req_id_to_index.erase id := by rw [hb]; rfl
      have hrow : ∀ j, j ≠ i → b'.samplingRow j = b.samplingRow j := by
        intro j hj
        rw [hb]
        ext1
        case allowed_token_ids_mask =>
          simp only [samplingRow, maskRow, reset_sampling]
          cases b.allowed_token_ids_mask_cpu_tensor <;> simp [hj]
        all_goals simp [samplingRow, reset_sampling, hj]
      have hself : Unkeyed (b'.samplingRow i) := by
        rw [hb]
        constructor <;> simp [samplingRow, reset_sampling]
      refine ⟨fun j hj => ?_, fun k => ?_, fun k => ?_⟩
      · by_cases hji : j = i
        · exact hji ▸ hself
        · rw [hrow j hji]
          refine hvac j fun k hk => hj k ?_
          have : k ≠ id := by
            rintro rfl
            exact hji (Option.some.inj (hk.symm.trans hi))
          rw [hidx, Dict.lookup_erase', if_neg this, hk]
      · unfold sampling
        rw [hidx, Dict.lookup_erase']
        split
        · rfl
        · rename_i hk
          cases hl : b.req_id_to_index.lookup k with
          | none => rfl
          | some j =>
              have : j ≠ i := by rintro rfl; exact hk (h.indexed.inverse.unique hl hi)
              rw [Option.map_some, Option.map_some, hrow j this]
      · rw [hb]
        split
        · rename_i hk
          subst hk
          ext1 <;> simp [setsRow, reset_sampling, SetsRow.absent]
        · rename_i hk
          ext1 <;> simp [setsRow, reset_sampling, hk]

theorem sampling_condense_move {b : InputBatch T} {src dst : Nat} {id : ReqId}
    (hl : b.Indexed) (hvac : b.Vacated) (hs : b.req_ids[src]? = some (some id))
    (hd : b.req_ids[dst]? = some none) :
    (b.condense_move src dst).Vacated ∧
      (∀ k, (b.condense_move src dst).sampling k = b.sampling k) ∧
      ∀ k, (b.condense_move src dst).setsRow k = b.setsRow k := by
  have hsd : src ≠ dst := by rintro rfl; rw [hs] at hd; simp at hd
  have hsrc : b.req_id_to_index.lookup id = some src := (hl.inverse id src).mpr hs
  have hfree : ∀ k, b.req_id_to_index.lookup k ≠ some dst := by
    intro k hk
    have := (hl.inverse k dst).mp hk
    rw [hd] at this
    simp at this
  have hdst := hvac dst hfree
  obtain ⟨d1, d2, d3⟩ := hdst
  simp only [samplingRow] at d1 d2 d3
  have hidx : (b.condense_move src dst).req_id_to_index = b.req_id_to_index.insert id dst := by
    simp only [condense_move, hs, Option.join_some]
  have hrow : ∀ j, (b.condense_move src dst).samplingRow j = if j = dst then b.samplingRow src
      else if j = src then { b.samplingRow src with
        bad_words_token_ids := none, min_tokens := none, generator := none }
      else b.samplingRow j := by
    intro j
    simp only [condense_move, hs, Option.join_some]
    by_cases hjd : j = dst
    · subst hjd
      rw [if_pos rfl]
      ext1
      case allowed_token_ids_mask =>
        simp only [samplingRow, maskRow]
        cases b.allowed_token_ids_mask_cpu_tensor <;> simp
      all_goals simp [samplingRow, Dict.lookup_moveKey, d1, d2, d3]
    · rw [if_neg hjd]
      by_cases hjs : j = src
      · subst hjs
        rw [if_pos rfl]
        ext1
        case allowed_token_ids_mask =>
          simp only [samplingRow, maskRow]
          cases b.allowed_token_ids_mask_cpu_tensor <;> simp [hjd]
        all_goals simp [samplingRow, Dict.lookup_moveKey, d1, d2, d3, hjd]
      · rw [if_neg hjs]
        ext1
        case allowed_token_ids_mask =>
          simp only [samplingRow, maskRow]
          cases b.allowed_token_ids_mask_cpu_tensor <;> simp [hjd]
        all_goals simp [samplingRow, Dict.lookup_moveKey, d1, d2, d3, hjd, hjs]
  refine ⟨fun j hj => ?_, fun k => ?_, fun k => ?_⟩
  · have hjd : j ≠ dst := by
      rintro rfl
      exact hj id (by rw [hidx, Dict.lookup_insert', if_pos rfl])
    rw [hrow, if_neg hjd]
    split
    · exact ⟨rfl, rfl, rfl⟩
    · rename_i hjs
      refine hvac j fun k hk => hj k ?_
      have : k ≠ id := by
        rintro rfl
        exact hjs (Option.some.inj (hk.symm.trans hsrc))
      rw [hidx, Dict.lookup_insert', if_neg this, hk]
  · unfold sampling
    rw [hidx, Dict.lookup_insert']
    split
    · rename_i hk
      subst hk
      rw [hsrc, Option.map_some, Option.map_some, hrow, if_pos rfl]
    · rename_i hk
      cases hj : b.req_id_to_index.lookup k with
      | none => rfl
      | some j =>
          have h1 : j ≠ dst := by rintro rfl; exact hfree k hj
          have h2 : j ≠ src := by rintro rfl; exact hk (hl.inverse.unique hj hsrc)
          rw [Option.map_some, Option.map_some, hrow, if_neg h1, if_neg h2]
  · simp only [condense_move, hs, Option.join_some]
    rfl

theorem sampling_condense {b : InputBatch T} {removed : List Nat} (h : b.Holes removed)
    (hdesc : removed.reverse.Pairwise (· < ·)) (hvac : b.Vacated) :
    (b.condense removed).Vacated ∧ (∀ k, (b.condense removed).sampling k = b.sampling k) ∧
      ∀ k, (b.condense removed).setsRow k = b.setsRow k := by
  refine condense_rule (fun c => c.Vacated ∧ (∀ k, c.sampling k = b.sampling k) ∧
    ∀ k, c.setsRow k = b.setsRow k) h hdesc ⟨hvac, fun _ => rfl, fun _ => rfl⟩ ?_ ?_
  · intro c src dst id hidx ⟨h1, h2, h3⟩ hs hd
    obtain ⟨m1, m2, m3⟩ := sampling_condense_move hidx h1 hs hd
    exact ⟨m1, fun k => (m2 k).trans (h2 k), fun k => (m3 k).trans (h3 k)⟩
  · exact fun c n hc => hc

theorem swapAt_apply {α : Type} (a : Nat → α) (i1 i2 j : Nat) :
    swapAt a i1 i2 j = if j = i2 then a i1 else if j = i1 then a i2 else a j := by
  simp only [swapAt, Function.update_apply]

theorem lookup_swap_dict_values [SwapDictValues] {υ : Type} (d : Dict Nat υ) (i1 i2 j : Nat) :
    (swap_dict_values d i1 i2).lookup j =
      if j = i2 then d.lookup i1 else if j = i1 then d.lookup i2 else d.lookup j := by
  rw [SwapDictValues.lookup_swap]
  by_cases h2 : j = i2
  · subst h2
    rw [if_pos rfl, if_pos rfl]
    split
    · rename_i h1; rw [h1]
    · rfl
  · rw [if_neg h2, if_neg h2]

-- The requests in the two rows of a swap.
theorem swap_states_eq [SwapDictValues] {b b' : InputBatch T} {i1 i2 : Nat}
    (hl : b.Indexed) (hr : b.swap_states i1 i2 = some b') :
    ∃ id1 id2, b.req_id_to_index.lookup id1 = some i1 ∧
      b.req_id_to_index.lookup id2 = some i2 ∧
      b'.req_ids = (b.req_ids.set i1 (some id2)).set i2 (some id1) ∧
      b'.req_id_to_index = (b.req_id_to_index.insert id1 i2).insert id2 i1 ∧
      b'.req_output_token_ids =
        (b.req_output_token_ids.set i1 (b.req_output_token_ids[i2]?).join).set i2
          (b.req_output_token_ids[i1]?).join ∧
      (∀ k, b'.setsRow k = b.setsRow k) ∧
      ∀ j, b'.samplingRow j = if j = i2 then
          { b.samplingRow i1 with allowed_token_ids_mask := b.maskRow i2 }
        else if j = i1 then b.samplingRow i2 else b.samplingRow j := by
  simp only [swap_states, Option.bind_eq_bind, Option.bind_eq_some_iff, Option.pure_def,
    Option.some.injEq] at hr
  obtain ⟨id1, h1, id2, h2, j1, hj1, j2, hj2, rfl⟩ := hr
  have hi1 := (hl.inverse id1 i1).mpr (Option.join_eq_some_iff.mp h1)
  have hi2 := (hl.inverse id2 i2).mpr (Option.join_eq_some_iff.mp h2)
  obtain rfl : i1 = j1 := Option.some.inj (hi1.symm.trans hj1)
  obtain rfl : i2 = j2 := Option.some.inj (hi2.symm.trans hj2)
  refine ⟨id1, id2, hi1, hi2, rfl, rfl, rfl, fun _ => rfl, fun j => ?_⟩
  by_cases hj2 : j = i2
  · rw [if_pos hj2]
    ext1
    case allowed_token_ids_mask =>
      simp only [samplingRow, maskRow]
      cases b.allowed_token_ids_mask_cpu_tensor with
      | none => rfl
      | some mask => simp [hj2]
    all_goals simp [samplingRow, swapAt_apply, lookup_swap_dict_values, hj2]
  · rw [if_neg hj2]
    by_cases hj1 : j = i1
    · rw [if_pos hj1]
      ext1
      case allowed_token_ids_mask =>
        simp only [samplingRow, maskRow]
        cases b.allowed_token_ids_mask_cpu_tensor with
        | none => rfl
        | some mask => simp [hj1, Function.update_of_ne (hj1 ▸ hj2)]
      all_goals simp [samplingRow, swapAt_apply, lookup_swap_dict_values, hj1, hj1 ▸ hj2]
    · rw [if_neg hj1]
      ext1
      case allowed_token_ids_mask =>
        simp only [samplingRow, maskRow]
        cases b.allowed_token_ids_mask_cpu_tensor with
        | none => rfl
        | some mask => simp [Function.update_of_ne hj1, Function.update_of_ne hj2]
      all_goals simp [samplingRow, swapAt_apply, lookup_swap_dict_values, hj1, hj2]

-- What lies in the rows goes with the requests.
theorem holes_swap_states [SwapDictValues] {b b' : InputBatch T} {removed : List Nat}
    {i1 i2 : Nat} (h : b.Holes removed) (hr : b.swap_states i1 i2 = some b') :
    b'.Holes removed ∧ (∀ k, k ∈ b'.req_id_to_index ↔ k ∈ b.req_id_to_index) ∧
      (∀ (β : Type) (f f' : Nat → β),
        (∀ j, f' j = if j = i2 then f i1 else if j = i1 then f i2 else f j) →
        ∀ k, (b'.req_id_to_index.lookup k).map f' = (b.req_id_to_index.lookup k).map f) ∧
      (∀ j, (b'.req_output_token_ids[j]?).join =
        if j = i2 then (b.req_output_token_ids[i1]?).join
        else if j = i1 then (b.req_output_token_ids[i2]?).join
        else (b.req_output_token_ids[j]?).join) ∧
      ∀ j, (∀ id, b'.req_id_to_index.lookup id ≠ some j) →
        j ≠ i1 ∧ j ≠ i2 ∧ ∀ id, b.req_id_to_index.lookup id ≠ some j := by
  obtain ⟨id1, id2, h1, h2, hids, hidx, houts, -, -⟩ := swap_states_eq h.indexed hr
  have hinv := h.indexed.inverse
  have ho1 := (hinv id1 i1).mp h1
  have ho2 := (hinv id2 i2).mp h2
  have hl1 := hinv.lt h1
  have hl2 := hinv.lt h2
  have hlen := h.indexed.length
  have hm1 : id1 ∈ b.req_id_to_index := (Dict.mem_iff _ _).mpr ⟨i1, h1⟩
  have hm2 : id2 ∈ b.req_id_to_index := (Dict.mem_iff _ _).mpr ⟨i2, h2⟩
  have hmem : ∀ k, k ∈ b'.req_id_to_index ↔ k ∈ b.req_id_to_index := by
    intro k
    rw [hidx, AList.mem_insert, AList.mem_insert]
    constructor
    · rintro (rfl | rfl | hk)
      · exact hm2
      · exact hm1
      · exact hk
    · exact fun hk => Or.inr (Or.inr hk)
  -- where a request lies afterwards
  have hlook : ∀ k j, b.req_id_to_index.lookup k = some j →
      b'.req_id_to_index.lookup k = some (if k = id2 then i1 else if k = id1 then i2 else j) := by
    intro k j hj
    rw [hidx, Dict.lookup_insert', Dict.lookup_insert']
    split
    · rfl
    · split
      · rfl
      · exact hj
  have hcount : b'.num_reqs = b.num_reqs := by
    rw [num_reqs, hidx, Dict.length_keys_insert_mem, Dict.length_keys_insert_mem _ _ _ hm1]
    · rfl
    · exact (AList.mem_insert _).mpr (Or.inr hm2)
  refine ⟨⟨⟨?_, ?_⟩, h.nodup, fun i => ?_, ?_⟩, hmem, fun β f f' hf k => ?_, fun j => ?_,
    fun j hj => ?_⟩
  · rw [hids, hidx]
    exact hinv.swap ho1 ho2
  · rw [hids, houts]
    simp [hlen]
  · rw [hids, ← h.vacant i, List.getElem?_set, List.getElem?_set]
    simp only [List.length_set, hl1, hl2, ite_true]
    split
    · rename_i he; subst he; simp [ho2]
    · split
      · rename_i he; subst he; simp [ho1]
      · rfl
  · rw [hcount, hids]
    simpa using h.count
  · cases hj : b.req_id_to_index.lookup k with
    | none =>
        have : k ∉ b'.req_id_to_index := fun hk =>
          AList.lookup_eq_none.mp hj ((hmem k).mp hk)
        rw [AList.lookup_eq_none.mpr this]
        rfl
    | some j =>
        rw [hlook k j hj, Option.map_some, Option.map_some, Option.some.injEq, hf]
        by_cases hk2 : k = id2
        · rw [hk2] at hj
          obtain rfl : i2 = j := Option.some.inj (h2.symm.trans hj)
          rw [if_pos hk2]
          by_cases he : i1 = i2
          · rw [if_pos he, he]
          · rw [if_neg he, if_pos rfl]
        · rw [if_neg hk2]
          by_cases hk1 : k = id1
          · rw [hk1] at hj
            obtain rfl : i1 = j := Option.some.inj (h1.symm.trans hj)
            rw [if_pos hk1, if_pos rfl]
          · have n1 : j ≠ i1 := fun he => hk1 (hinv.unique hj (he ▸ h1))
            have n2 : j ≠ i2 := fun he => hk2 (hinv.unique hj (he ▸ h2))
            rw [if_neg hk1, if_neg n2, if_neg n1]
  · simp only [houts, List.getElem?_set, List.length_set, hlen, hl1, hl2, ite_true, eq_comm]
    split
    · rfl
    · split <;> rfl
  · have hj2 : j ≠ i2 := by
      rintro rfl
      by_cases he : i1 = j
      · exact hj id2 (by rw [hlook _ _ h2, if_pos rfl, he])
      · have hne : id1 ≠ id2 := fun hid => he (Option.some.inj (h1.symm.trans (hid ▸ h2)))
        exact hj id1 (by rw [hlook _ _ h1, if_neg hne, if_pos rfl])
    have hj1 : j ≠ i1 := by
      rintro rfl
      exact hj id2 (by rw [hlook _ _ h2, if_pos rfl])
    refine ⟨hj1, hj2, fun k hk => ?_⟩
    by_cases hk2 : k = id2
    · exact hj2 (Option.some.inj (hk.symm.trans (hk2 ▸ h2)))
    · by_cases hk1 : k = id1
      · exact hj1 (Option.some.inj (hk.symm.trans (hk1 ▸ h1)))
      · exact hj k (by rw [hlook _ _ hk, if_neg hk2, if_neg hk1])

end TTXla.VllmTT.InputBatch
