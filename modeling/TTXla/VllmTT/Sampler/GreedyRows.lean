import Mathlib.Data.List.MinMax
import TTXla.VllmTT.ConstraintMasks

-- The tokens of the greedy rows of a batch.
namespace TTXla.VllmTT

-- The numbers of a logits tensor. The sums, products and differences are rounded; only what
-- holds of the neutral operands is known of them.
class Logit (L : Type) extends LinearOrder L where
  add : L → L → L
  sub : L → L → L
  mul : L → L → L
  div : L → L → L
  reciprocal : L → L
  of_rat : ℚ → L
  neg_inf : L
  add_rat_zero : ∀ x, add x (of_rat 0) = x
  sub_rat_zero : ∀ x, sub x (of_rat 0) = x
  mul_rat_one : ∀ x, mul x (of_rat 1) = x
  rat_zero_mul : ∀ q, mul (of_rat 0) (of_rat q) = of_rat 0
  reciprocal_rat_one : reciprocal (of_rat 1) = of_rat 1

open InputBatch Logit

namespace Sampler

variable {L : Type} [Logit L]

-- A tensor with a row of logits for each request.
abbrev BatchLogits (L : Type) := Nat → Token → L

-- `logits.argmax(dim=-1)` on a row: the first of the largest.
def argmax (vocab_size : Nat) (row : Token → L) : Option Token := (List.range vocab_size).argmax row

def greedy_sample (vocab_size : Nat) (logits : BatchLogits L) : Nat → Option Token :=
  fun i => argmax vocab_size (logits i)

-- `logits + mask`, for a mask that is -inf where it holds and 0 elsewhere.
def add_mask (logits : BatchLogits L) (mask : Nat → Token → Bool) : BatchLogits L :=
  fun i token => add (logits i token) (if mask i token then neg_inf else of_rat 0)

def apply_bad_words (logits : BatchLogits L) (bad_words_mask : Nat → Token → Bool) :
    BatchLogits L :=
  add_mask logits bad_words_mask

def apply_logit_bias (logits : BatchLogits L) (logit_bias_tensor : Nat → Token → ℚ) :
    BatchLogits L :=
  fun i token => add (logits i token) (of_rat (logit_bias_tensor i token))

-- `apply_penalties` on an entry: the repetition penalty first, then the other two.
def penalise (logit : L) (count : Nat) (in_prompt : Bool) (presence frequency repetition : ℚ) :
    L :=
  let occurred_output := decide (0 < count)
  let rep_mask := occurred_output || in_prompt
  let rep := of_rat repetition
  let penalty_factor := if of_rat 0 < logit then reciprocal rep else rep
  let logit := if rep_mask then mul logit penalty_factor else logit
  let logit := sub logit (mul (of_rat frequency) (of_rat count))
  sub logit (mul (of_rat presence) (of_rat (if occurred_output then 1 else 0)))

def apply_penalties (logits : BatchLogits L) (output_token_counts : Nat → Token → Nat)
    (prompt_token_mask : Nat → Token → Bool)
    (presence_penalties frequency_penalties repetition_penalties : Nat → ℚ) : BatchLogits L :=
  fun i token => penalise (logits i token) (output_token_counts i token)
    (prompt_token_mask i token) (presence_penalties i) (frequency_penalties i)
    (repetition_penalties i)

def apply_temperature (logits : BatchLogits L) (temp : Nat → ℚ) (all_random : Bool) :
    BatchLogits L :=
  fun i token =>
    let temp := if !all_random && decide (temp i < SAMPLING_EPS) then 1 else temp i
    div (logits i token) (of_rat temp)

-- `if not no: logits = f(logits, tensor)`. Without the tensor this raises.
def apply_unless {α : Type} (no : Bool) (tensor : Option α)
    (f : BatchLogits L → α → BatchLogits L) (logits : BatchLogits L) : Option (BatchLogits L) :=
  if no then some logits else tensor.map (f logits)

def penalised (md : SamplingMetadata) (logits : BatchLogits L) : Option (BatchLogits L) := do
  let output_token_counts ← md.output_token_counts
  let prompt_token_mask ← md.prompt_token_mask
  let presence_penalties ← md.presence_penalties
  let frequency_penalties ← md.frequency_penalties
  let repetition_penalties ← md.repetition_penalties
  return apply_penalties logits output_token_counts prompt_token_mask presence_penalties
    frequency_penalties repetition_penalties

def unless_no_penalties (md : SamplingMetadata) (logits : BatchLogits L) :
    Option (BatchLogits L) :=
  if md.no_penalties then some logits else penalised md logits

-- `sample`. `random_sampled` stands for the filters and the draw, which read the logits after
-- the temperature and the metadata.
def sample (vocab_size : Nat)
    (random_sampled : BatchLogits L → SamplingMetadata → Nat → Option Token)
    (logits : BatchLogits L) (md : SamplingMetadata) : Option (Nat → Option Token) := do
  let logits ← apply_unless md.no_allowed_token_ids md.allowed_token_ids_mask add_mask logits
  let logits ← apply_unless md.no_min_tokens md.min_tokens_mask add_mask logits
  let logits ← apply_unless md.no_bad_words md.bad_words_mask apply_bad_words logits
  let logits ← apply_unless md.no_logit_bias md.logit_bias_tensor apply_logit_bias logits
  let temperature ← md.temperature
  let logits ← unless_no_penalties md logits
  let greedy_sampled := greedy_sample vocab_size logits
  let random_sampled :=
    random_sampled (apply_temperature logits temperature md.all_random) md
  return fun i => if temperature i < SAMPLING_EPS then greedy_sampled i else random_sampled i

-- Whether `sample_from_logits` takes the argmax of the logits as they are.
def takes_argmax (md : SamplingMetadata) : Bool :=
  md.all_greedy && md.no_penalties && md.no_logit_bias && md.no_bad_words &&
    md.no_allowed_token_ids && md.no_min_tokens && md.no_generators

def sample_from_logits (vocab_size : Nat)
    (random_sampled : BatchLogits L → SamplingMetadata → Nat → Option Token)
    (logits : BatchLogits L) (md : SamplingMetadata) : Option (Nat → Option Token) :=
  if takes_argmax md then some (greedy_sample vocab_size logits)
  else sample vocab_size random_sampled logits md

-- The logits of a row after what its own request asks for, and nothing else.
section Own

variable (vocab_size : Nat) (sp : SamplingParams) (prompt past : List Token)

def own_masks (row : Token → L) : Token → L := fun token =>
  let logit := row token
  let logit := if maskOf sp token then add logit neg_inf else logit
  let logit := if SamplingMetadata.min_tokens_row vocab_size (minTokensOf sp) past token
    then add logit neg_inf else logit
  if SamplingMetadata.bad_words_row vocab_size (badWordsOf sp) past token
    then add logit neg_inf else logit

def own_logit_bias (row : Token → L) : Token → L := fun token =>
  match sp.logit_bias with
  | none => row token
  | some bias => add (row token) (of_rat ((bias.lookup token).getD 0))

def own_penalties (row : Token → L) : Token → L := fun token =>
  if sp.presence_penalty = 0 ∧ sp.frequency_penalty = 0 ∧ sp.repetition_penalty = 1 then row token
  else penalise (row token) (past.count token) (decide (token ∈ prompt)) sp.presence_penalty
    sp.frequency_penalty sp.repetition_penalty

def own_logits (row : Token → L) : Token → L :=
  own_penalties sp prompt past (own_logit_bias sp (own_masks vocab_size sp past row))

end Own

theorem argmax_congr {vocab_size : Nat} {row row' : Token → L}
    (h : ∀ token < vocab_size, row token = row' token) :
    argmax vocab_size row = argmax vocab_size row' := by
  have hlist : ∀ tokens : List Token, (∀ token ∈ tokens, row token = row' token) →
      tokens.argmax row = tokens.argmax row' := by
    intro tokens
    induction tokens with
    | nil => exact fun _ => rfl
    | cons token tokens ih =>
        intro hsame
        have htail := ih fun t ht => hsame t (List.mem_cons_of_mem _ ht)
        rw [List.argmax_cons, List.argmax_cons, htail]
        cases hmax : tokens.argmax row' with
        | none => rfl
        | some best =>
            have hbest : best ∈ tokens := List.argmax_mem hmax
            dsimp only
            rw [hsame token List.mem_cons_self, hsame best (List.mem_cons_of_mem _ hbest)]
  exact hlist _ fun token htoken => h token (List.mem_range.mp htoken)

-- A mask that is built for the sake of other rows adds 0.
theorem apply_unless_mask {no : Bool} {mask : Option (Nat → Token → Bool)}
    (hno : no = mask.isNone) (logits : BatchLogits L) :
    ∃ logits', apply_unless no mask add_mask logits = some logits' ∧ ∀ i token,
      logits' i token = if (mask.map fun t => t i token).getD false
        then add (logits i token) neg_inf else logits i token := by
  cases mask with
  | none =>
      subst hno
      exact ⟨logits, rfl, fun i token => rfl⟩
  | some mask =>
      subst hno
      refine ⟨add_mask logits mask, rfl, fun i token => ?_⟩
      simp only [add_mask, Option.map_some, Option.getD_some]
      split
      · rfl
      · exact add_rat_zero _

theorem apply_unless_bias {no : Bool} {bias : Option (Nat → Token → ℚ)}
    (hno : no = bias.isNone) (logits : BatchLogits L) :
    ∃ logits', apply_unless no bias apply_logit_bias logits = some logits' ∧ ∀ i token,
      logits' i token =
        add (logits i token) (of_rat ((bias.map fun t => t i token).getD 0)) := by
  cases bias with
  | none =>
      subst hno
      exact ⟨logits, rfl, fun i token => (add_rat_zero _).symm⟩
  | some bias =>
      subst hno
      exact ⟨apply_logit_bias logits bias, rfl, fun i token => rfl⟩

theorem penalise_neutral (logit : L) (count : Nat) (in_prompt : Bool) :
    penalise logit count in_prompt 0 0 1 = logit := by
  unfold penalise
  dsimp only
  rw [reciprocal_rat_one, ite_self, mul_rat_one, ite_self, rat_zero_mul, sub_rat_zero, rat_zero_mul, sub_rat_zero]

-- What `sample` makes of the logits of a row, before the temperature.
def row_logits (md : SamplingMetadata) (i : Nat) (row : Token → L) : Token → L := fun token =>
  let logit := row token
  let logit := if (md.allowed_token_ids_mask.map fun t => t i token).getD false
    then add logit neg_inf else logit
  let logit := if (md.min_tokens_mask.map fun t => t i token).getD false
    then add logit neg_inf else logit
  let logit := if (md.bad_words_mask.map fun t => t i token).getD false
    then add logit neg_inf else logit
  let logit := add logit (of_rat ((md.logit_bias_tensor.map fun t => t i token).getD 0))
  if md.no_penalties then logit
  else penalise logit ((md.output_token_counts.map fun t => t i token).getD 0)
    ((md.prompt_token_mask.map fun t => t i token).getD false)
    ((md.presence_penalties.map fun t => t i).getD 0)
    ((md.frequency_penalties.map fun t => t i).getD 0)
    ((md.repetition_penalties.map fun t => t i).getD 1)

-- The flags say which tensors there are, and without a temperature none is read.
structure Flagged (md : SamplingMetadata) : Prop where
  allowed_token_ids : md.no_allowed_token_ids = md.allowed_token_ids_mask.isNone
  min_tokens : md.no_min_tokens = md.min_tokens_mask.isNone
  bad_words : md.no_bad_words = md.bad_words_mask.isNone
  logit_bias : md.no_logit_bias = md.logit_bias_tensor.isNone
  temperature : md.temperature = none → takes_argmax md = true
  penalties : md.no_penalties = false → md.output_token_counts.isSome ∧
    md.prompt_token_mask.isSome ∧ md.presence_penalties.isSome ∧
    md.frequency_penalties.isSome ∧ md.repetition_penalties.isSome

theorem flagged {T : Type} {b b' : InputBatch T} {outs : OutRef → List Token}
    {batch_vocab_size padded_num_reqs vocab_size : Nat} {md : SamplingMetadata}
    (h : SamplingMetadata.from_input_batch b outs batch_vocab_size padded_num_reqs
      (some vocab_size) = some (md, b')) : Flagged md := by
  have hbase : ∀ md₀, md₀ = SamplingMetadata.base b outs batch_vocab_size padded_num_reqs →
      md₀.no_allowed_token_ids = md₀.allowed_token_ids_mask.isNone ∧
      md₀.no_min_tokens = md₀.min_tokens_mask.isNone ∧
      md₀.no_bad_words = md₀.bad_words_mask.isNone ∧
      md₀.no_logit_bias = md₀.logit_bias_tensor.isNone := by
    rintro md₀ rfl
    simp only [SamplingMetadata.base]
    refine ⟨?_, ?_, ?_, ?_⟩
    · cases b.no_allowed_token_ids with
      | true => rfl
      | false => rfl
    · split
      · rename_i hbelow
        rw [hbelow]
        rfl
      · rename_i hbelow
        rw [Bool.not_eq_true] at hbelow
        rw [hbelow]
        rfl
    · cases b.bad_words_token_ids.keys.isEmpty with
      | true => rfl
      | false => rfl
    · cases (List.range b.num_reqs).all fun i => (b.logit_bias i).isNone with
      | true => rfl
      | false => rfl
  obtain ⟨hallowed, hmin, hbad, hbias⟩ := hbase _ rfl
  have heq := SamplingMetadata.from_input_batch_eq h
  dsimp only at heq
  split at heq
  · rename_i hearly
    cases heq
    refine ⟨hallowed, hmin, hbad, hbias, fun _ => ?_, fun hno => by cases hno⟩
    simp only [SamplingMetadata.returns_early, Bool.and_eq_true] at hearly
    obtain ⟨⟨⟨⟨⟨⟨-, -⟩, h3⟩, h4⟩, h5⟩, h6⟩, -⟩ := hearly
    simp only [takes_argmax, h3, h4, h5, h6, Bool.and_true]
    rfl
  · obtain rfl : md = _ := congrArg Prod.fst heq
    unfold SamplingMetadata.with_params
    cases b.no_penalties with
    | true =>
        refine ⟨hallowed, hmin, hbad, hbias, fun hnone => ?_, fun hno => ?_⟩
        · cases hnone
        · cases hno
    | false =>
        refine ⟨hallowed, hmin, hbad, hbias, fun hnone => ?_, fun _ => ?_⟩
        · cases hnone
        · exact ⟨rfl, rfl, rfl, rfl, rfl⟩

-- `sample` returns, and a row with temperature 0 gets the argmax of its logits.
theorem sample_eq_some {md : SamplingMetadata} (h : Flagged md) {temperature : Nat → ℚ}
    (ht : md.temperature = some temperature) (vocab_size : Nat)
    (random_sampled : BatchLogits L → SamplingMetadata → Nat → Option Token)
    (logits : BatchLogits L) :
    ∃ tokens, sample vocab_size random_sampled logits md = some tokens ∧
      ∀ i, temperature i < SAMPLING_EPS →
        tokens i = argmax vocab_size (row_logits md i (logits i)) := by
  obtain ⟨logits₁, h1, hrow1⟩ := apply_unless_mask h.allowed_token_ids logits
  obtain ⟨logits₂, h2, hrow2⟩ := apply_unless_mask h.min_tokens logits₁
  obtain ⟨logits₃, h3, hrow3⟩ := apply_unless_mask h.bad_words logits₂
  obtain ⟨logits₄, h4, hrow4⟩ := apply_unless_bias h.logit_bias logits₃
  obtain ⟨logits₅, h5, hrow5⟩ : ∃ logits₅,
      unless_no_penalties md logits₄ = some logits₅ ∧
      ∀ i token, logits₅ i token = row_logits md i (logits i) token := by
    have hrow : ∀ i token, row_logits md i (logits i) token = if md.no_penalties
        then logits₄ i token
        else penalise (logits₄ i token) ((md.output_token_counts.map fun t => t i token).getD 0)
          ((md.prompt_token_mask.map fun t => t i token).getD false)
          ((md.presence_penalties.map fun t => t i).getD 0)
          ((md.frequency_penalties.map fun t => t i).getD 0)
          ((md.repetition_penalties.map fun t => t i).getD 1) := by
      intro i token
      unfold row_logits
      dsimp only
      rw [← hrow1, ← hrow2, ← hrow3, ← hrow4]
    unfold unless_no_penalties
    cases hno : md.no_penalties with
    | true =>
        refine ⟨logits₄, rfl, fun i token => ?_⟩
        rw [hrow, hno, if_pos rfl]
    | false =>
        obtain ⟨hc, hp, h6, h7, h8⟩ := h.penalties hno
        obtain ⟨counts, hc⟩ := Option.isSome_iff_exists.mp hc
        obtain ⟨prompts, hp⟩ := Option.isSome_iff_exists.mp hp
        obtain ⟨presence, h6⟩ := Option.isSome_iff_exists.mp h6
        obtain ⟨frequency, h7⟩ := Option.isSome_iff_exists.mp h7
        obtain ⟨repetition, h8⟩ := Option.isSome_iff_exists.mp h8
        refine ⟨apply_penalties logits₄ counts prompts presence frequency repetition, ?_,
          fun i token => ?_⟩
        · simp only [Bool.false_eq_true, ite_false, penalised, hc, hp, h6, h7, h8,
            Option.bind_eq_bind, Option.bind_some, Option.pure_def]
        · rw [hrow, hno, hc, hp, h6, h7, h8]
          rfl
  have hbad : apply_unless md.no_bad_words md.bad_words_mask apply_bad_words logits₂ =
      some logits₃ := h3
  refine ⟨fun i => if temperature i < SAMPLING_EPS then greedy_sample vocab_size logits₅ i
    else random_sampled (apply_temperature logits₅ temperature md.all_random) md i, ?_,
    fun i hi => ?_⟩
  · unfold sample
    simp only [h1, h2, hbad, h4, h5, ht, Option.bind_eq_bind, Option.bind_some, Option.pure_def]
  · simp only [hi, ite_true, greedy_sample]
    exact argmax_congr fun token _ => hrow5 i token

section Rows

open BatchState (MetadataFor MasksRow)

variable {cfg : RunnerConfig} {md : SamplingMetadata} {i : Nat} {st : CachedRequestState}
  {sp : SamplingParams} {past : List Token}

-- What the metadata does to a row is what the request in it asks for.
theorem row_logits_eq_own (hfor : MetadataFor cfg md (some cfg.vocab_size) i st sp past)
    (hmasks : MasksRow cfg md (some cfg.vocab_size) i st sp past) (hflags : Flagged md)
    (row : Token → L) {token : Token} (htoken : token < cfg.vocab_size) :
    row_logits md i row token =
      own_logits cfg.vocab_size sp st.prompt_token_ids past row token := by
  have hbias : add (own_masks cfg.vocab_size sp past row token)
      (of_rat (SamplingMetadata.logit_bias_row sp.logit_bias token)) =
      own_logit_bias sp (own_masks cfg.vocab_size sp past row) token := by
    unfold own_logit_bias
    cases sp.logit_bias with
    | none => exact add_rat_zero _
    | some bias => rfl
  unfold row_logits own_logits own_penalties
  dsimp only
  rw [hfor.allowed_token_ids token, hfor.min_tokens token, hfor.bad_words token,
    hfor.logit_bias token]
  change (if md.no_penalties then add (own_masks cfg.vocab_size sp past row token) _
    else penalise (add (own_masks cfg.vocab_size sp past row token) _) _ _ _ _ _) = _
  rw [hbias]
  cases hno : md.no_penalties with
  | true => rw [if_pos rfl, if_pos (hfor.no_penalties hno)]
  | false =>
      obtain ⟨hc, hp, h6, h7, h8⟩ := hflags.penalties hno
      obtain ⟨counts, hc⟩ := Option.isSome_iff_exists.mp hc
      obtain ⟨prompts, hp⟩ := Option.isSome_iff_exists.mp hp
      obtain ⟨presence, h6⟩ := Option.isSome_iff_exists.mp h6
      obtain ⟨frequency, h7⟩ := Option.isSome_iff_exists.mp h7
      obtain ⟨repetition, h8⟩ := Option.isSome_iff_exists.mp h8
      have hprompt : prompts i token = decide (token ∈ st.prompt_token_ids) := by
        have hiff := hmasks.prompt_token_mask prompts hp _ rfl token htoken
        rw [Bool.eq_iff_iff, hiff, decide_eq_true_iff]
      rw [if_neg Bool.false_ne_true, hc, hp, h6, h7, h8]
      simp only [Option.map_some, Option.getD_some]
      rw [hfor.output_token_counts counts hc, hprompt, hfor.presence_penalties presence h6,
        hfor.frequency_penalties frequency h7, hfor.repetition_penalties repetition h8]
      split
      · -- the penalties of another row are there, and those of this one are neutral
        rename_i hneutral
        obtain ⟨n1, n2, n3⟩ := hneutral
        rw [n1, n2, n3, penalise_neutral]
      · rfl

-- Where the argmax is taken directly, no request of the batch asks for anything.
theorem own_logits_of_takes_argmax
    (hfor : MetadataFor cfg md (some cfg.vocab_size) i st sp past)
    (hmasks : MasksRow cfg md (some cfg.vocab_size) i st sp past) (hflags : Flagged md)
    (h : takes_argmax md = true) (row : Token → L) {token : Token}
    (htoken : token < cfg.vocab_size) :
    own_logits cfg.vocab_size sp st.prompt_token_ids past row token = row token := by
  rw [← row_logits_eq_own hfor hmasks hflags row htoken]
  simp only [takes_argmax, Bool.and_eq_true] at h
  obtain ⟨⟨⟨⟨⟨⟨-, hno⟩, h3⟩, h4⟩, h5⟩, h6⟩, -⟩ := h
  rw [hflags.logit_bias, Option.isNone_iff_eq_none] at h3
  rw [hflags.bad_words, Option.isNone_iff_eq_none] at h4
  rw [hflags.allowed_token_ids, Option.isNone_iff_eq_none] at h5
  rw [hflags.min_tokens, Option.isNone_iff_eq_none] at h6
  unfold row_logits
  rw [h3, h4, h5, h6, hno, if_pos rfl]
  exact add_rat_zero _

end Rows

-- A batch, and the metadata that is built for it: the sampler returns, and every greedy row gets
-- the argmax of its own logits after what its own request asks for, whatever the logits and the
-- draw of the other rows are. This is the argmax of the logits as they are where that is what
-- the batch takes; and without a temperature the batch takes it.
structure GreedyRows (L : Type) [Logit L] {T : Type} (cfg : RunnerConfig) (s : BatchState T)
    (outs : OutRef → List Token) (padded_num_reqs : Nat) (md : SamplingMetadata) : Prop where
  temperature : md.temperature = none → takes_argmax md = true
  tokens : ∀ (random_sampled : BatchLogits L → SamplingMetadata → Nat → Option Token)
    (logits : BatchLogits L), ∃ tokens,
      sample_from_logits cfg.vocab_size random_sampled logits md = some tokens ∧
      ∀ (id : ReqId) (i : Nat), s.batch.req_id_to_index.lookup id = some i →
        i < padded_num_reqs → ∃ st sp, s.owner id = some st ∧ st.sampling_params = some sp ∧
          (sp.sampling_type = .GREEDY →
            tokens i = argmax cfg.vocab_size (own_logits cfg.vocab_size sp st.prompt_token_ids
              (outs st.output_token_ids) (logits i)) ∧
            (takes_argmax md = true → tokens i = argmax cfg.vocab_size (logits i)))

section Runs

variable {T : Type} [BlockTable T]

open BatchState (Inv Held Proper CleanStep)

theorem greedyRows_of_inv (L : Type) [Logit L] {cfg : RunnerConfig} {s : BatchState T}
    (hinv : Inv cfg s) (hheld : Held cfg s) (hfull : s.empty_req_indices = [])
    {outs : OutRef → List Token} {padded_num_reqs : Nat} {md : SamplingMetadata}
    {b : InputBatch T} (hmd : SamplingMetadata.from_input_batch s.batch outs cfg.vocab_size
      padded_num_reqs (some cfg.vocab_size) = some (md, b)) :
    GreedyRows L cfg s outs padded_num_reqs md := by
  have hflags := flagged hmd
  have hrows : ∀ (id : ReqId) (i : Nat), s.batch.req_id_to_index.lookup id = some i →
      i < padded_num_reqs → ∃ st sp, s.owner id = some st ∧ st.sampling_params = some sp ∧
        BatchState.MetadataFor cfg md (some cfg.vocab_size) i st sp (outs st.output_token_ids) ∧
        BatchState.MasksRow cfg md (some cfg.vocab_size) i st sp
          (outs st.output_token_ids) := by
    intro id i hi hlt
    obtain ⟨st, sp, r1, r2, -, -, hfor⟩ := hinv.isolated id i hi
    obtain ⟨st', sp', r1', r2', hmasks⟩ := hheld.masksRow hmd hi hlt
    obtain rfl : st = st' := Option.some.inj (r1.symm.trans r1')
    obtain rfl : sp = sp' := Option.some.inj (r2.symm.trans r2')
    exact ⟨st, sp, r1, r2, hfor outs padded_num_reqs _ md b hfull hlt hmd, hmasks⟩
  refine ⟨hflags.temperature, fun random_sampled logits => ?_⟩
  unfold sample_from_logits
  by_cases htakes : takes_argmax md = true
  · rw [if_pos htakes]
    refine ⟨_, rfl, fun id i hi hlt => ?_⟩
    obtain ⟨st, sp, r1, r2, hfor, hmasks⟩ := hrows id i hi hlt
    refine ⟨st, sp, r1, r2, fun _ => ⟨?_, fun _ => rfl⟩⟩
    exact argmax_congr fun token htoken =>
      (own_logits_of_takes_argmax hfor hmasks hflags htakes (logits i) htoken).symm
  · rw [if_neg htakes]
    obtain ⟨temperature, ht⟩ := Option.ne_none_iff_exists'.mp
      fun hnone => htakes (hflags.temperature hnone)
    obtain ⟨tokens, htokens, hgreedy⟩ :=
      sample_eq_some hflags ht cfg.vocab_size random_sampled logits
    refine ⟨tokens, htokens, fun id i hi hlt => ?_⟩
    obtain ⟨st, sp, r1, r2, hfor, hmasks⟩ := hrows id i hi hlt
    refine ⟨st, sp, r1, r2, fun htype => ⟨?_, fun hargmax => absurd hargmax htakes⟩⟩
    have hzero : temperature i < SAMPLING_EPS := by
      rw [hfor.temperature temperature ht]
      simp only [samplingOf, htype, ite_true]
      norm_num [SAMPLING_EPS]
    rw [hgreedy i hzero]
    exact argmax_congr fun token htoken =>
      row_logits_eq_own hfor hmasks hflags (logits i) htoken

-- In every run whose steps are clean, the greedy rows do not depend on their neighbours.
theorem greedy_rows_of_clean (L : Type) [Logit L] [SwapDictValues] (cfg : RunnerConfig)
    (memory : InputBatch T) {s : BatchState T}
    (h : Run.Reachable (BatchState.step cfg) (fun s op => Proper cfg s op ∧ CleanStep s op)
      (BatchState.init memory) s) (hfull : s.empty_req_indices = [])
    {outs : OutRef → List Token} {padded_num_reqs : Nat} {md : SamplingMetadata}
    {b : InputBatch T} (hmd : SamplingMetadata.from_input_batch s.batch outs cfg.vocab_size
      padded_num_reqs (some cfg.vocab_size) = some (md, b)) :
    GreedyRows L cfg s outs padded_num_reqs md :=
  greedyRows_of_inv L
    (h.invariant (Inv cfg) (BatchState.inv_init cfg memory)
      fun _ _ _ hs hok hstep => BatchState.inv_step cfg hs hok.1 hok.2 hstep)
    (BatchState.held_reachable cfg memory (h.mono fun _ _ hok => hok.1)) hfull hmd

end Runs

section Example

open Runner (fiveTokens oneGroup newReq new_state greedy)
open BatchState (Proper CleanStep addGreedy)

-- Exact arithmetic on the rationals and -inf.
instance : Logit (WithBot ℚ) where
  add x y := x + y
  sub x y := WithBot.map₂ (· - ·) x y
  mul x y := WithBot.map₂ (· * ·) x y
  div x y := WithBot.map₂ (· / ·) x y
  reciprocal x := x.map (·⁻¹)
  of_rat q := q
  neg_inf := ⊥
  add_rat_zero x := by
    cases x with
    | bot => rfl
    | coe q => exact congrArg WithBot.some (add_zero q)
  sub_rat_zero x := by
    cases x with
    | bot => rfl
    | coe q => exact congrArg WithBot.some (sub_zero q)
  mul_rat_one x := by
    cases x with
    | bot => rfl
    | coe q => exact congrArg WithBot.some (mul_one q)
  rat_zero_mul q := congrArg WithBot.some (zero_mul q)
  reciprocal_rat_one := congrArg WithBot.some inv_one

def addRandom (req_id : ReqId) : BatchOp :=
  .add_request (fun _ => []) { new_state 0 (newReq req_id [1] [1]) greedy with
    sampling_params := some { greedy with
      sampling_type := .RANDOM, temperature := 1, presence_penalty := 1 } }

def addAllowed (req_id : ReqId) : BatchOp :=
  .add_request (fun _ => []) { new_state 0 (newReq req_id [1] [1]) greedy with
    sampling_params := some { greedy with allowed_token_ids := some [3] } }

-- A greedy request, then a random one with a penalty.
def withGreedy : BatchState DenseTable :=
  ((BatchState.init oneGroup).step fiveTokens (addGreedy "A" none)).get (by decide)

def mixed : BatchState DenseTable :=
  (withGreedy.step fiveTokens (addRandom "B")).get (by decide)

theorem withGreedy_step : (BatchState.init oneGroup).step fiveTokens (addGreedy "A" none) =
    some withGreedy := (Option.some_get _).symm

theorem mixed_step : withGreedy.step fiveTokens (addRandom "B") = some mixed :=
  (Option.some_get _).symm

def mixedMetadata : SamplingMetadata × InputBatch DenseTable :=
  (SamplingMetadata.from_input_batch mixed.batch (fun _ => []) fiveTokens.vocab_size 2
    (some fiveTokens.vocab_size)).get (by decide)

theorem mixedMetadata_eq : SamplingMetadata.from_input_batch mixed.batch (fun _ => [])
    fiveTokens.vocab_size 2 (some fiveTokens.vocab_size) =
      some (mixedMetadata.1, mixedMetadata.2) := by
  rw [Prod.mk.eta, mixedMetadata, Option.some_get]

theorem mixed_greedyRows :
    GreedyRows (WithBot ℚ) fiveTokens mixed (fun _ => []) 2 mixedMetadata.1 := by
  have h₁ : CleanStep (BatchState.init oneGroup) (addGreedy "A" none) :=
    fun sp _ => ⟨fun _ => rfl, fun _ => rfl⟩
  have h₂ : CleanStep withGreedy (addRandom "B") := fun sp _ => ⟨fun _ => rfl, fun _ => rfl⟩
  refine greedy_rows_of_clean (WithBot ℚ) fiveTokens oneGroup
    ((Run.Reachable.start.next ⟨?_, h₁⟩ withGreedy_step).next ⟨?_, h₂⟩ mixed_step)
    (by decide) mixedMetadata_eq
  · decide
  · decide

-- The second request may only get token 3. When the first leaves, compaction moves the second
-- into its row and leaves the mask in the old one, where the third request finds it.
def maskLeak : List BatchOp :=
  [addGreedy "A" none, addAllowed "B", .remove_request "A", .condense, addGreedy "C" none]

def afterMaskLeak : BatchState DenseTable :=
  (Run.exec (BatchState.step fiveTokens) (Proper fiveTokens) (BatchState.init oneGroup)
    maskLeak).get (by decide)

def leakMetadata : SamplingMetadata × InputBatch DenseTable :=
  (SamplingMetadata.from_input_batch afterMaskLeak.batch (fun _ => []) fiveTokens.vocab_size 2
    (some fiveTokens.vocab_size)).get (by decide)

-- Token 4 has the largest logit.
def favourFour : BatchLogits (WithBot ℚ) := fun _ token => if token = 4 then ↑(1 : ℚ) else ↑(0 : ℚ)

theorem third_gets_mask :
    Run.Reachable (BatchState.step fiveTokens) (Proper fiveTokens) (BatchState.init oneGroup)
      afterMaskLeak ∧
    ¬GreedyRows (WithBot ℚ) fiveTokens afterMaskLeak (fun _ => []) 2 leakMetadata.1 := by
  refine ⟨.of_exec maskLeak .start (Option.some_get _).symm, fun h => ?_⟩
  obtain ⟨tokens, htokens, hrows⟩ := h.tokens (fun _ _ _ => none) favourFour
  obtain ⟨st, sp, r1, r2, hgreedy⟩ := hrows "C" 1 (by decide) (by decide)
  have hthree : ((sample_from_logits fiveTokens.vocab_size (fun _ _ _ => none) favourFour
      leakMetadata.1).bind fun tokens => tokens 1) = some 3 := by decide +kernel
  have hfour : ((afterMaskLeak.owner "C").bind fun st => st.sampling_params.bind fun sp =>
      argmax fiveTokens.vocab_size (own_logits fiveTokens.vocab_size sp st.prompt_token_ids []
        (favourFour 1))) = some 4 := by decide +kernel
  have htype : ((afterMaskLeak.owner "C").bind fun st => st.sampling_params.map fun sp =>
      decide (sp.sampling_type = .GREEDY)) = some true := by decide
  rw [r1, Option.bind_some, r2] at hfour htype
  rw [Option.map_some, Option.some.injEq, decide_eq_true_eq] at htype
  rw [htokens, Option.bind_some, (hgreedy htype).1] at hthree
  rw [Option.bind_some, hthree] at hfour
  cases hfour

end Example

end Sampler

end TTXla.VllmTT
