import Mathlib.Algebra.BigOperators.Ring.Finset
import TTXla.VllmTT.PrepareInputs.Lemmas
import TTXla.VllmTT.UpdateStates.Theorems

-- The adapters of the tokens of an execution.
namespace TTXla.VllmTT.Runner

variable {T : Type}

-- The counts that `set_active_loras` gets: the last request takes the padding.
def padded_num_scheduled_tokens_per_req (counts : List Nat) (padded_len : Nat) : List Int :=
  counts.dropLast.map Nat.cast ++ [(counts.getLastD 0 : Int) + (padded_len - counts.sum)]

-- What `_prepare_inputs` has computed when it activates the adapters.
structure Prepares (cfg : RunnerConfig) (b : InputBatch T) (so : SchedulerOutput)
    (start_index : Nat) (counts : List Nat) (padded_len : Nat) : Prop where
  start_lt : start_index < b.num_reqs
  chunk : chunk_counts cfg b so start_index = some counts
  padded : ∃ m, counts.max? = some m ∧ 0 < m ∧
    get_padded_token_len cfg.num_tokens_paddings m = some padded_len

-- At every token of the padded input, the flat mapping has the adapter of its request.
def TokensMapped (b : InputBatch T) (start_index : Nat) (counts : List Nat) (padded_len : Nat)
    (mapping : List Nat) : Prop :=
  ∀ i n, counts[i]? = some n → ∀ p < n,
    mapping[i * padded_len + p]? = some (b.request_lora_mapping (start_index + i))

structure LorasRight (cfg : RunnerConfig) (b : InputBatch T) (start_index : Nat)
    (counts : List Nat) (padded_len : Nat) : Prop where
  nonneg : ∀ n ∈ padded_num_scheduled_tokens_per_req counts padded_len, 0 ≤ n
  -- the input has a row for each request that the batch can hold
  total : (padded_num_scheduled_tokens_per_req counts padded_len).sum =
    cfg.max_num_reqs * padded_len
  mapped : ∃ mapping, lora_mapping cfg.toBaseConfig b counts padded_len = some (some mapping) ∧
    TokensMapped b start_index counts padded_len mapping

section Counts

variable {cfg : RunnerConfig} {b : InputBatch T} {so : SchedulerOutput} {start_index : Nat}
  {counts : List Nat} {padded_len : Nat}

theorem lora_mapping_eq (hlora : cfg.lora_config = true) :
    lora_mapping cfg.toBaseConfig b counts padded_len =
      (make_lora_inputs b (padded_num_scheduled_tokens_per_req counts padded_len)).map some := by
  unfold lora_mapping
  rw [if_pos hlora]
  rfl

theorem length_padded_counts (hne : counts ≠ []) :
    (padded_num_scheduled_tokens_per_req counts padded_len).length = counts.length := by
  have hpos := List.length_pos_iff.mpr hne
  simp only [padded_num_scheduled_tokens_per_req, List.length_append, List.length_map,
    List.length_dropLast, List.length_singleton]
  omega

-- The padding of one row, whatever the number of rows.
theorem sum_padded_counts (padded_len : Nat) (hne : counts ≠ []) :
    (padded_num_scheduled_tokens_per_req counts padded_len).sum = padded_len := by
  have hsum : counts.sum = counts.dropLast.sum + counts.getLastD 0 := by
    conv_lhs => rw [← List.dropLast_append_getLast hne]
    rw [List.sum_append, List.sum_singleton, List.getLastD_eq_getLast?,
      List.getLast?_eq_some_getLast hne, Option.getD_some]
  simp only [padded_num_scheduled_tokens_per_req, List.sum_append, List.sum_singleton]
  rw [← Nat.cast_list_sum, hsum]
  push_cast
  omega

theorem Prepares.bounds (h : Prepares cfg b so start_index counts padded_len) :
    counts ≠ [] ∧ (∀ n ∈ counts, n ≤ padded_len) ∧ 0 < padded_len ∧
      counts.length ≤ cfg.max_num_reqs := by
  obtain ⟨m, hm, hpos, hpad⟩ := h.padded
  obtain ⟨hmem, hmax⟩ := List.max?_eq_some_iff.mp hm
  have hle := (get_padded_token_len_spec hpad).1
  refine ⟨List.ne_nil_of_mem hmem, fun n hn => (hmax n hn).trans hle, by omega, ?_⟩
  obtain ⟨all_counts, -, hcounts⟩ := Option.map_eq_some_iff.mp h.chunk
  have hlimit := cfg.num_reqs_limit_le all_counts
  rw [← hcounts, List.length_take]
  omega

end Counts

section Mapping

variable {cfg : RunnerConfig} {b : InputBatch T} {start_index padded_len : Nat}

theorem length_flatMap_replicate (loras : List Nat) (counts : List Int)
    (hlen : counts.length = loras.length) (hpos : ∀ n ∈ counts, 0 ≤ n) :
    (((loras.zip counts).flatMap fun (lora, n) => List.replicate n.toNat lora).length : Int) =
      counts.sum := by
  induction counts generalizing loras with
  | nil =>
      obtain rfl : loras = [] := List.length_eq_zero_iff.mp hlen.symm
      rfl
  | cons n counts ih =>
      cases loras with
      | nil => cases hlen
      | cons lora loras =>
          have hn := hpos n List.mem_cons_self
          have hrest := ih loras (Nat.succ.inj hlen)
            fun m hm => hpos m (List.mem_cons_of_mem _ hm)
          rw [List.zip_cons_cons, List.flatMap_cons, List.length_append, List.length_replicate,
            List.sum_cons, Nat.cast_add, hrest, Int.toNat_of_nonneg hn]

-- One count is taken for every request.
theorem make_lora_inputs_single {n : Nat} :
    make_lora_inputs b [(n : Int)] = some ((List.range b.num_reqs).flatMap fun i =>
      List.replicate n (b.request_lora_mapping i)) := by
  have hnonneg : ∀ m ∈ [(n : Int)], 0 ≤ m := by
    intro m hm
    rw [List.mem_singleton.mp hm]
    exact Int.natCast_nonneg _
  have hzip : ((List.range b.num_reqs).map b.request_lora_mapping).zip
      (List.replicate b.num_reqs (n : Int)) =
      (List.range b.num_reqs).map fun i => (b.request_lora_mapping i, (n : Int)) := by
    apply List.ext_getElem
    · simp
    · intro i h₁ h₂
      simp
  unfold make_lora_inputs
  refine Option.bind_eq_some_iff.mpr ⟨(), (Options.guard_eq_some (u := ())).mpr hnonneg, ?_⟩
  simp only [hzip, Option.bind_eq_bind, Option.pure_def, Option.bind_some, List.flatMap_map,
    Int.toNat_natCast]

-- Several counts are one for each request.
theorem make_lora_inputs_many {ns : List Int} (hmany : 1 < ns.length) {mapping : List Nat}
    (h : make_lora_inputs b ns = some mapping) : (mapping.length : Int) = ns.sum := by
  match ns, hmany with
  | n :: n' :: ns, _ =>
      unfold make_lora_inputs at h
      simp only [Option.bind_eq_bind, Option.bind_eq_some_iff, Options.guard_eq_some] at h
      obtain ⟨-, hnonneg, -, hreqs, counts, hcounts, h⟩ := h
      cases hcounts
      cases h
      apply length_flatMap_replicate _ _ _ hnonneg
      rw [List.length_map, List.length_range, hreqs]

-- With several requests the mapping ends where the second row begins.
theorem not_mapped_of_many {counts : List Nat} (hlora : cfg.lora_config = true)
    (hpos : ∀ n ∈ counts, 0 < n) (hmany : 1 < counts.length) {mapping : List Nat}
    (h : lora_mapping cfg.toBaseConfig b counts padded_len = some (some mapping)) :
    ¬TokensMapped b start_index counts padded_len mapping := by
  intro hmapped
  have hne : counts ≠ [] := List.length_pos_iff.mp (by omega)
  rw [lora_mapping_eq hlora] at h
  obtain ⟨mapping', hmake, heq⟩ := Option.map_eq_some_iff.mp h
  cases heq
  have hlen := make_lora_inputs_many (by rw [length_padded_counts hne]; exact hmany) hmake
  rw [sum_padded_counts _ hne] at hlen
  obtain ⟨n, hn⟩ : ∃ n, counts[1]? = some n := ⟨_, List.getElem?_eq_getElem hmany⟩
  have hpast := hmapped 1 n hn 0 (hpos n (List.mem_of_getElem? hn))
  rw [List.getElem?_eq_none (by omega)] at hpast
  cases hpast

-- One request takes the whole row, with the adapter of the first request of the batch.
theorem mapped_single_iff {n : Nat} (hlora : cfg.lora_config = true) (hn : 0 < n)
    (hle : n ≤ padded_len) (hreqs : 0 < b.num_reqs) :
    (∃ mapping, lora_mapping cfg.toBaseConfig b [n] padded_len = some (some mapping) ∧
      TokensMapped b start_index [n] padded_len mapping) ↔
      b.request_lora_mapping start_index = b.request_lora_mapping 0 := by
  have hpadded : padded_num_scheduled_tokens_per_req [n] padded_len = [(padded_len : Int)] := by
    simp only [padded_num_scheduled_tokens_per_req, List.dropLast_singleton, List.map_nil,
      List.nil_append, List.getLastD_cons, List.getLastD_nil, List.sum_singleton]
    congr 1
    omega
  rw [lora_mapping_eq hlora, hpadded, make_lora_inputs_single, Option.map_some]
  have hfirst : ∀ p < padded_len, ((List.range b.num_reqs).flatMap fun i =>
      List.replicate padded_len (b.request_lora_mapping i))[p]? =
        some (b.request_lora_mapping 0) := by
    intro p hp
    obtain ⟨k, hk⟩ := Nat.exists_eq_add_of_lt hreqs
    rw [hk, Nat.zero_add, List.range_succ_eq_map, List.flatMap_cons,
      List.getElem?_append_left (by rw [List.length_replicate]; exact hp),
      List.getElem?_replicate, if_pos hp]
  constructor
  · rintro ⟨mapping, heq, hmapped⟩
    cases heq
    have hzero := hmapped 0 n rfl 0 hn
    rw [hfirst _ (by omega)] at hzero
    exact (Option.some.inj hzero).symm
  · intro hsame
    refine ⟨_, rfl, fun i m hi p hp => ?_⟩
    obtain ⟨rfl, rfl⟩ : i = 0 ∧ n = m := by
      cases i with
      | zero => exact ⟨rfl, Option.some.inj hi⟩
      | succ i => cases hi
    rw [Nat.zero_mul, Nat.zero_add, hfirst p (by omega), Nat.add_zero, hsame]

end Mapping

section Right

variable {cfg : RunnerConfig} {b : InputBatch T} {so : SchedulerOutput} {start_index : Nat}
  {counts : List Nat} {padded_len : Nat}

-- The counts add up to one row of the input. So they are right for a runner of one row, and
-- the tokens have their adapters when one request is executed alone.
theorem loras_right_iff (hlora : cfg.lora_config = true)
    (h : Prepares cfg b so start_index counts padded_len) :
    (LorasRight cfg b start_index counts padded_len ↔ cfg.max_num_reqs = 1 ∧
      b.request_lora_mapping start_index = b.request_lora_mapping 0) ∧
    ((∀ n ∈ counts, 0 < n) →
      ((∃ mapping, lora_mapping cfg.toBaseConfig b counts padded_len = some (some mapping) ∧
        TokensMapped b start_index counts padded_len mapping) ↔ counts.length = 1 ∧
        b.request_lora_mapping start_index = b.request_lora_mapping 0)) := by
  obtain ⟨hne, hle, hpadded, hreqs⟩ := h.bounds
  have hlen := List.length_pos_iff.mpr hne
  have hnum : 0 < b.num_reqs := Nat.zero_lt_of_lt h.start_lt
  have hsum := sum_padded_counts padded_len hne
  have hsingle : ∀ n, counts = [n] → 0 < n := by
    intro n hn
    obtain ⟨m, hm, hpos, -⟩ := h.padded
    rw [hn] at hm
    cases hm
    exact hpos
  constructor
  · constructor
    · intro hright
      have hone : cfg.max_num_reqs = 1 := by
        have htotal := hright.total
        rw [hsum] at htotal
        have heq : padded_len * 1 = padded_len * cfg.max_num_reqs := by
          rw [Nat.mul_comm padded_len cfg.max_num_reqs]
          omega
        exact (Nat.eq_of_mul_eq_mul_left hpadded heq).symm
      obtain ⟨n, rfl⟩ := List.length_eq_one_iff.mp (show counts.length = 1 by omega)
      exact ⟨hone, (mapped_single_iff hlora (hsingle n rfl) (hle n List.mem_cons_self) hnum).mp
        hright.mapped⟩
    · rintro ⟨hone, hsame⟩
      obtain ⟨n, rfl⟩ := List.length_eq_one_iff.mp (show counts.length = 1 by omega)
      refine ⟨fun m hm => ?_, by rw [hsum, hone, Nat.cast_one, one_mul],
        (mapped_single_iff hlora (hsingle n rfl) (hle n List.mem_cons_self) hnum).mpr hsame⟩
      have hn := hle n List.mem_cons_self
      simp only [padded_num_scheduled_tokens_per_req, List.dropLast_singleton, List.map_nil,
        List.nil_append, List.mem_singleton, List.getLastD_cons, List.getLastD_nil,
        List.sum_singleton] at hm
      omega
  · intro hpos
    constructor
    · rintro ⟨mapping, hmapping, hmapped⟩
      have hone : counts.length = 1 := by
        by_contra hmany
        exact not_mapped_of_many hlora hpos (by omega) hmapping hmapped
      obtain ⟨n, rfl⟩ := List.length_eq_one_iff.mp hone
      exact ⟨hone, (mapped_single_iff hlora (hsingle n rfl) (hle n List.mem_cons_self) hnum).mp
        ⟨mapping, hmapping, hmapped⟩⟩
    · rintro ⟨hone, hsame⟩
      obtain ⟨n, rfl⟩ := List.length_eq_one_iff.mp hone
      exact (mapped_single_iff hlora (hsingle n rfl) (hle n List.mem_cons_self) hnum).mpr hsame

end Right

section Example

def loraReq (req_id : ReqId) (prompt_token_ids : List Token) (block lora_int_id : Nat) :
    NewRequestData :=
  { newReq req_id prompt_token_ids [block] with lora_request := some ⟨lora_int_id, none⟩ }

def oneLora : RunnerConfig :=
  { twoRows with max_num_seqs := 1, lora_config := true, max_model_len_le := by decide }

def loraPrompt : SchedulerOutput := prefill [loraReq "A" [7, 8] 1 1] []

def afterLora : Runner DenseTable :=
  (update_states oneLora .asListed (init oneGroup) loraPrompt).get (by decide)

theorem lora_prepares : Prepares oneLora afterLora.input_batch loraPrompt 0 [2] 32 where
  start_lt := by decide
  chunk := by decide
  padded := ⟨2, by decide, by decide, by decide⟩

theorem lora_right : LorasRight oneLora afterLora.input_batch 0 [2] 32 :=
  (loras_right_iff rfl lora_prepares).1.mpr (by decide)

-- Two prompts with adapters 1 and 2.
def twoLoras : RunnerConfig := { twoRows with lora_config := true }

def loraPrompts : SchedulerOutput := prefill [loraReq "A" [7, 8] 1 1, loraReq "B" [9] 2 2] []

def afterLoras : Runner DenseTable :=
  (Run.exec (update_states twoLoras .asListed) Fits (init oneGroup) [loraPrompts]).get (by decide)

-- The second row begins at entry 32, and the mapping has 32 entries.
theorem second_row_unmapped :
    Run.Reachable (update_states twoLoras .asListed) Fits (init oneGroup) afterLoras ∧
      Prepares twoLoras afterLoras.input_batch loraPrompts 0 [2, 1] 32 ∧
      ¬LorasRight twoLoras afterLoras.input_batch 0 [2, 1] 32 := by
  refine ⟨.of_exec [loraPrompts] .start (Option.some_get _).symm,
    ⟨by decide, by decide, 2, by decide, by decide, by decide⟩, ?_⟩
  rintro ⟨-, -, mapping, hmapping, hmapped⟩
  have hentry := hmapped 1 1 rfl 0 Nat.one_pos
  have hnone : ((lora_mapping twoLoras.toBaseConfig afterLoras.input_batch [2, 1] 32).bind
      fun mapping => mapping.bind fun mapping => mapping[1 * 32 + 0]?) = none := by decide
  rw [hmapping, Option.bind_some, Option.bind_some, hentry] at hnone
  cases hnone

end Example

end TTXla.VllmTT.Runner
