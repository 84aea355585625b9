import TTXla.VllmTT.InputBatch.Sampling

-- The generators of the rows, under the operations of the batch.
namespace TTXla.VllmTT.InputBatch

variable {T : Type} [BlockTable T] {generator : ReqId → Option Generator} {b b' : InputBatch T}
  {removed : List Nat}

-- A row has the generator of its request, and the other rows have none.
structure Generators (generator : ReqId → Option Generator) (b : InputBatch T) : Prop where
  own : ∀ id i, b.req_id_to_index.lookup id = some i → b.generators.lookup i = generator id
  vacant : ∀ i, (∀ id, b.req_id_to_index.lookup id ≠ some i) → b.generators.lookup i = none

namespace Generators

omit [BlockTable T]

theorem init (generator : ReqId → Option Generator) (memory : InputBatch T) :
    Generators generator (InputBatch.init memory) where
  own id i hi := by simp [InputBatch.init] at hi
  vacant i _ := by simp [InputBatch.init]

-- Only the generators of the requests in the batch matter.
theorem congr (h : Generators generator b) {generator' : ReqId → Option Generator}
    (hsame : ∀ id ∈ b.req_id_to_index, generator' id = generator id) : Generators generator' b where
  own id i hi := by
    rw [h.own id i hi, hsame id ((Dict.mem_iff _ _).mpr ⟨i, hi⟩)]
  vacant := h.vacant

theorem of_eq (h : Generators generator b) (hindex : b'.req_id_to_index = b.req_id_to_index)
    (hgenerators : b'.generators = b.generators) : Generators generator b' where
  own := by rw [hindex, hgenerators]; exact h.own
  vacant := by rw [hindex, hgenerators]; exact h.vacant

theorem remove_request (h : Generators generator b) (hb : b.Holes removed) {cfg : BatchConfig}
    (hpool : cfg.is_pooling_model = false) {id : ReqId} {r : Option Nat}
    (hr : b.remove_request cfg id = some (r, b')) : Generators generator b' := by
  cases hi : b.req_id_to_index.lookup id with
  | none =>
      obtain ⟨-, rfl⟩ := remove_request_absent cfg b hi hr
      exact h
  | some i =>
      obtain ⟨-, lm, li, lr, rfl⟩ := remove_request_eq cfg b hi hr
      rw [hpool, if_neg Bool.false_ne_true]
      constructor
      · intro k j hj
        change (b.req_id_to_index.erase id).lookup k = some j at hj
        change (b.generators.erase i).lookup j = _
        rw [Dict.lookup_erase'] at hj ⊢
        split at hj
        · cases hj
        case isFalse hk =>
          have hji : j ≠ i := by
            intro heq
            subst heq
            exact hk (hb.indexed.inverse.unique hj hi)
          rw [if_neg hji]
          exact h.own k j hj
      · intro j hj
        change (b.generators.erase i).lookup j = none
        rw [Dict.lookup_erase']
        split
        · rfl
        case isFalse hji =>
          refine h.vacant j fun k hk => hj k ?_
          have hne : k ≠ id := by
            intro heq
            subst heq
            exact hji (Option.some.inj (hk.symm.trans hi))
          change (b.req_id_to_index.erase id).lookup k = some j
          rw [Dict.lookup_erase', if_neg hne]
          exact hk

end Generators

theorem generators_add_request {cfg : BatchConfig} {outs : OutRef → List Token}
    {st : CachedRequestState} {sp : SamplingParams} {req_index : Option Nat}
    (hsp : st.sampling_params = some sp) (hr : b.add_request cfg outs st req_index = some b') :
    b'.generators = match st.generator with
      | some g => b.generators.insert (req_index.getD b.num_reqs) g
      | none => b.generators := by
  obtain ⟨i, b₁, b₂, b₃, b₄, hi, -, h1, h2, h3, h4, rfl⟩ := add_request_stages cfg outs b st hr
  obtain ⟨ids, out, rfl, -⟩ := set_req_id_eq b st h1
  simp only [copy_token_ids, Option.bind_eq_bind, Option.bind_eq_some_iff, Option.pure_def,
    Option.some.injEq] at h2
  obtain ⟨_, _, _, _, rfl⟩ := h2
  have h3' : b₃.generators = b.generators := by
    unfold add_block_row at h3
    split at h3
    · obtain ⟨t, -, hb⟩ := Option.bind_eq_some_iff.mp h3
      cases hb
      rfl
    · cases h3
      rfl
  simp only [set_params, hsp, Option.some.injEq] at h4
  subst h4
  have hlora : ∀ b : InputBatch T, (b.set_lora st i).generators = b.generators := by
    intro b
    unfold set_lora
    split
    · rfl
    · rfl
  rw [hlora, ← hi, ← h3']
  rfl

namespace Generators

theorem add_request (h : Generators generator b) (hb : b.Holes removed) {cfg : BatchConfig}
    {outs : OutRef → List Token} {st : CachedRequestState} {sp : SamplingParams}
    (hsp : st.sampling_params = some sp) (hid : st.req_id ∉ b.req_id_to_index)
    (hst : generator st.req_id = st.generator)
    (hr : b.add_request cfg outs st removed.getLast? = some b') : Generators generator b' := by
  have hfree := add_index_free hb
  have hidx : b'.req_id_to_index =
      b.req_id_to_index.insert st.req_id (removed.getLast?.getD b.num_reqs) := by
    refine (indexed_add_request cfg outs b st hb.indexed hid (fun i hi =>
      (hb.vacant i).mpr (List.mem_of_getLast? hi)) (fun hn => ?_) hr).2.1
    have hc := hb.count
    rw [List.getLast?_eq_none_iff.mp hn] at hc
    simpa using hc
  have hgen := generators_add_request hsp hr
  generalize removed.getLast?.getD b.num_reqs = i at *
  have hnone := h.vacant i hfree
  have hlookup : ∀ j, b'.generators.lookup j =
      if j = i then st.generator else b.generators.lookup j := by
    intro j
    rw [hgen]
    cases hg : st.generator with
    | none =>
        change b.generators.lookup j = _
        by_cases heq : j = i
        · rw [if_pos heq, heq, hnone]
        · rw [if_neg heq]
    | some g => exact Dict.lookup_insert' b.generators i j g
  constructor
  · intro k j hj
    rw [hidx, Dict.lookup_insert'] at hj
    rw [hlookup]
    split at hj
    case isTrue hk =>
      cases hj
      rw [if_pos rfl, hk, hst]
    case isFalse hk =>
      have hji : j ≠ i := fun heq => hfree k (heq ▸ hj)
      rw [if_neg hji]
      exact h.own k j hj
  · intro j hj
    have hji : j ≠ i := by
      intro heq
      refine hj st.req_id ?_
      rw [hidx, Dict.lookup_insert', if_pos rfl, heq]
    rw [hlookup, if_neg hji]
    refine h.vacant j fun k hk => hj k ?_
    have hne : k ≠ st.req_id := by
      intro heq
      exact hid ((Dict.mem_iff _ _).mpr ⟨j, heq ▸ hk⟩)
    rw [hidx, Dict.lookup_insert', if_neg hne]
    exact hk

theorem condense_move (h : Generators generator b) (hl : b.Indexed) {src dst : Nat} {id : ReqId}
    (hs : b.req_ids[src]? = some (some id)) (hd : b.req_ids[dst]? = some none) :
    Generators generator (b.condense_move src dst) := by
  have hsrc : b.req_id_to_index.lookup id = some src := (hl.inverse id src).mpr hs
  have hfree : ∀ k, b.req_id_to_index.lookup k ≠ some dst := by
    intro k hk
    have := (hl.inverse k dst).mp hk
    rw [hd] at this
    cases this
  have hsd : src ≠ dst := by
    intro heq
    rw [heq, hd] at hs
    cases hs
  have hidx : (b.condense_move src dst).req_id_to_index = b.req_id_to_index.insert id dst := by
    simp only [InputBatch.condense_move, hs, Option.join_some]
  have hlookup : ∀ j, (b.condense_move src dst).generators.lookup j =
      if j = dst then b.generators.lookup src else if j = src then none
      else b.generators.lookup j := by
    intro j
    simp only [InputBatch.condense_move, hs, Option.join_some]
    exact Dict.lookup_moveKey b.generators src dst j (h.vacant dst hfree)
  constructor
  · intro k j hj
    rw [hidx, Dict.lookup_insert'] at hj
    rw [hlookup]
    split at hj
    case isTrue hk =>
      cases hj
      rw [if_pos rfl, hk]
      exact h.own id src hsrc
    case isFalse hk =>
      have hjd : j ≠ dst := fun heq => hfree k (heq ▸ hj)
      have hjs : j ≠ src := by
        intro heq
        subst heq
        exact hk (hl.inverse.unique hj hsrc)
      rw [if_neg hjd, if_neg hjs]
      exact h.own k j hj
  · intro j hj
    have hjd : j ≠ dst := by
      intro heq
      refine hj id ?_
      rw [hidx, Dict.lookup_insert', if_pos rfl, heq]
    rw [hlookup, if_neg hjd]
    split
    · rfl
    case isFalse hjs =>
      refine h.vacant j fun k hk => hj k ?_
      have hne : k ≠ id := by
        intro heq
        subst heq
        exact hjs (Option.some.inj (hk.symm.trans hsrc))
      rw [hidx, Dict.lookup_insert', if_neg hne]
      exact hk

theorem condense (h : Generators generator b) (hb : b.Holes removed)
    (hdesc : removed.reverse.Pairwise (· < ·)) : Generators generator (b.condense removed) :=
  condense_rule (Generators generator) hb hdesc h
    (fun _ _ _ _ hl hc hs hd => hc.condense_move hl hs hd) fun _ _ hc => ⟨hc.own, hc.vacant⟩

end Generators

end TTXla.VllmTT.InputBatch
