import TTXla.VllmTT.UpdateStates.Theorems
import TTXla.VllmTT.InputBatch.Generators

-- The generators of the cached states and of the rows, over a call of `_update_states`.
namespace TTXla.VllmTT.Runner

open InputBatch (Generators)

variable {T : Type} [BlockTable T] {rs rs' : Runner T}
  {requests requests' : Dict ReqId CachedRequestState}

def generatorOf (requests : Dict ReqId CachedRequestState) (id : ReqId) : Option Generator :=
  (requests.lookup id).bind CachedRequestState.generator

theorem generatorOf_of_lookup {id : ReqId} {st : CachedRequestState}
    (h : requests.lookup id = some st) : generatorOf requests id = st.generator := by
  rw [generatorOf, h, Option.bind_some]

-- Every state has sampling parameters, and a generator that no other state has.
def Seeded (requests : Dict ReqId CachedRequestState) : Prop :=
  ∀ id st, requests.lookup id = some st → (∃ sp, st.sampling_params = some sp) ∧
    ∀ g, st.generator = some g → g.ref = st.output_token_ids

-- A state keeps its generator and its output list, unless it is a new state.
def Continues (next_ref : Nat) (requests requests' : Dict ReqId CachedRequestState) : Prop :=
  ∀ id st, requests'.lookup id = some st → next_ref ≤ st.output_token_ids ∨
    ∃ st₀, requests.lookup id = some st₀ ∧ st.generator = st₀.generator ∧
      st.output_token_ids = st₀.output_token_ids

theorem Continues.refl (next_ref : Nat) (requests : Dict ReqId CachedRequestState) :
    Continues next_ref requests requests :=
  fun _ st hst => .inr ⟨st, hst, rfl, rfl⟩

theorem Continues.trans {next_ref : Nat} {requests'' : Dict ReqId CachedRequestState}
    (h : Continues next_ref requests requests') (h' : Continues next_ref requests' requests'') :
    Continues next_ref requests requests'' := by
  intro id st hst
  obtain hnew | ⟨st₁, hst₁, hg, ho⟩ := h' id st hst
  · exact .inl hnew
  · obtain hnew | ⟨st₀, hst₀, hg₀, ho₀⟩ := h id st₁ hst₁
    · exact .inl (by rw [ho]; exact hnew)
    · exact .inr ⟨st₀, hst₀, hg.trans hg₀, ho.trans ho₀⟩

theorem popAll_continues (next_ref : Nat) (requests : Dict ReqId CachedRequestState)
    (ids : List ReqId) : Continues next_ref requests (popAll requests ids) := by
  intro id st hst
  rw [lookup_popAll] at hst
  split at hst
  · cases hst
  · exact .inr ⟨st, hst, rfl, rfl⟩

theorem popAll_seeded (h : Seeded requests) (ids : List ReqId) :
    Seeded (popAll requests ids) := by
  intro id st hst
  rw [lookup_popAll] at hst
  split at hst
  · cases hst
  · exact h id st hst

theorem remove_all_generators {cfg : BatchConfig} (hpool : cfg.is_pooling_model = false)
    {generator : ReqId → Option Generator} (ids : List ReqId) {b b' : InputBatch T}
    {removed removed' : List Nat} (h : Generators generator b) (hb : b.Holes removed)
    (hr : remove_all cfg ids (b, removed) = some (b', removed')) : Generators generator b' := by
  induction ids generalizing b removed with
  | nil =>
      cases hr
      exact h
  | cons id ids ih =>
      obtain ⟨⟨r, c⟩, hc, hrest⟩ := Option.bind_eq_some_iff.mp hr
      exact ih (h.remove_request hb hpool hc) (InputBatch.holes_remove_request cfg hb hc).1 hrest

omit [BlockTable T] in
theorem add_new_reqs_seeded {cfg : RunnerConfig} (ds : List NewRequestData)
    (hs : Seeded rs.requests) (h : add_new_reqs cfg ds rs = some rs') :
    Seeded rs'.requests ∧ Continues rs.next_ref rs.requests rs'.requests := by
  induction ds generalizing rs with
  | nil =>
      cases h
      exact ⟨hs, .refl _ _⟩
  | cons d ds ih =>
      obtain ⟨mid, hmid, hrest⟩ := Option.bind_eq_some_iff.mp h
      obtain ⟨sp, hsp, hmid⟩ := Option.bind_eq_some_iff.mp hmid
      cases hmid
      have hinsert : ∀ {id st},
          (rs.requests.insert d.req_id (new_state rs.next_ref d sp)).lookup id = some st →
          st = new_state rs.next_ref d sp ∨ rs.requests.lookup id = some st := by
        intro id st hst
        rw [Dict.lookup_insert'] at hst
        split at hst
        · cases hst
          exact .inl rfl
        · exact .inr hst
      have hseeded : Seeded (rs.requests.insert d.req_id (new_state rs.next_ref d sp)) := by
        intro id st hst
        obtain rfl | hold := hinsert hst
        · refine ⟨⟨sp, rfl⟩, fun g hg => ?_⟩
          simp only [new_state] at hg
          split at hg
          · cases hg
            rfl
          · cases hg
        · exact hs id st hold
      obtain ⟨hseeded', hcontinues⟩ := ih hseeded hrest
      refine ⟨hseeded', fun id st hst => ?_⟩
      obtain hnew | ⟨st₁, hst₁, hg, ho⟩ := hcontinues id st hst
      · exact .inl (Nat.le_of_succ_le hnew)
      · obtain rfl | hold := hinsert hst₁
        · exact .inl (Nat.le_of_eq ho.symm)
        · exact .inr ⟨st₁, hold, hg, ho⟩

-- A running or resumed request keeps its generator, and the batch keeps those of the rows.
theorem update_cached_reqs_generators (next_ref : Nat) {resumed : Finset ReqId}
    (ds : List CachedRequestData) {to_add to_add' : List ReqId} (hs : Seeded rs.requests)
    (hg : Generators (generatorOf rs.requests) rs.input_batch)
    (h : update_cached_reqs resumed ds (rs, to_add) = some (rs', to_add')) :
    Seeded rs'.requests ∧ Continues next_ref rs.requests rs'.requests ∧
      Generators (generatorOf rs'.requests) rs'.input_batch := by
  induction ds generalizing rs to_add with
  | nil =>
      cases h
      exact ⟨hs, .refl _ _, hg⟩
  | cons d ds ih =>
      obtain ⟨⟨mid, to_add₁⟩, hmid, hrest⟩ := Option.bind_eq_some_iff.mp h
      obtain ⟨st, hst, hmid⟩ := Option.bind_eq_some_iff.mp hmid
      obtain ⟨st', hst', hmid⟩ := Option.bind_eq_some_iff.mp hmid
      obtain ⟨-, -, ho, hp, hgen, -⟩ := cached_state_same hst'
      have hinsert : ∀ {id s}, (rs.requests.insert d.req_id st').lookup id = some s →
          (id = d.req_id ∧ s = st') ∨ rs.requests.lookup id = some s := by
        intro id s hs'
        rw [Dict.lookup_insert'] at hs'
        split at hs'
        · cases hs'
          exact .inl ⟨‹_›, rfl⟩
        · exact .inr hs'
      have hseeded : Seeded (rs.requests.insert d.req_id st') := by
        intro id s hs'
        obtain ⟨rfl, rfl⟩ | hold := hinsert hs'
        · rw [hp, hgen, ho]
          exact hs d.req_id st hst
        · exact hs id s hold
      have hcontinues : Continues next_ref rs.requests (rs.requests.insert d.req_id st') := by
        intro id s hs'
        obtain ⟨rfl, rfl⟩ | hold := hinsert hs'
        · exact .inr ⟨st, hst, hgen, ho⟩
        · exact .inr ⟨s, hold, rfl, rfl⟩
      have hsame : generatorOf (rs.requests.insert d.req_id st') = generatorOf rs.requests := by
        funext id
        unfold generatorOf
        rw [Dict.lookup_insert']
        split
        case isTrue hid =>
          rw [hid, hst, Option.bind_some, Option.bind_some, hgen]
        case isFalse => rfl
      have hmid' : mid.requests = rs.requests.insert d.req_id st' ∧
          mid.input_batch.req_id_to_index = rs.input_batch.req_id_to_index ∧
          mid.input_batch.generators = rs.input_batch.generators := by
        dsimp only at hmid
        split at hmid
        · cases hmid
          exact ⟨rfl, rfl, rfl⟩
        · obtain ⟨b, hb, hmid⟩ := Option.bind_eq_some_iff.mp hmid
          cases hmid
          unfold refresh_row at hb
          dsimp only at hb
          split at hb
          · cases hb
            exact ⟨rfl, rfl, rfl⟩
          · obtain ⟨t, -, hb⟩ := Option.bind_eq_some_iff.mp hb
            cases hb
            exact ⟨rfl, rfl, rfl⟩
      obtain ⟨hrequests, hindex, hgenerators⟩ := hmid'
      rw [← hrequests] at hseeded hcontinues hsame
      have hmidgen : Generators (generatorOf mid.requests) mid.input_batch := by
        rw [hsame]
        exact hg.of_eq hindex hgenerators
      obtain ⟨i1, i2, i3⟩ := ih hseeded hmidgen hrest
      exact ⟨i1, hcontinues.trans i2, i3⟩

theorem add_all_generators {cfg : BatchConfig} {outs : OutRef → List Token} {next : Nat}
    (hk : Known cfg.max_model_len requests outs next) (hs : Seeded requests) (ids : List ReqId)
    {b b' : InputBatch T} {removed removed' : List Nat}
    (h : Generators (generatorOf requests) b) (hb : b.Holes removed) (hnd : ids.Nodup)
    (hfresh : ∀ id ∈ ids, id ∉ b.req_id_to_index)
    (hr : add_all cfg outs requests ids (b, removed) = some (b', removed')) :
    Generators (generatorOf requests) b' := by
  induction ids generalizing b removed with
  | nil =>
      cases hr
      exact h
  | cons id ids ih =>
      obtain ⟨st, hst, hr⟩ := Option.bind_eq_some_iff.mp hr
      rw [popLast_eq] at hr
      obtain ⟨c, hc, hrest⟩ := Option.bind_eq_some_iff.mp hr
      have hid : st.req_id = id := hk.req_id id st hst
      have hfit : st.num_tokens outs ≤ cfg.max_model_len := by
        cases hk.fits id st hst with
        | inl hf => exact hf
        | inr hf =>
            have hp := InputBatch.prompt_length_le_of_add cfg outs hc
            simpa [CachedRequestState.num_tokens, hf] using hp
      rw [List.nodup_cons] at hnd
      have hnot : st.req_id ∉ b.req_id_to_index := hid ▸ hfresh id List.mem_cons_self
      obtain ⟨sp, hsp⟩ := (hs id st hst).1
      obtain ⟨a1, -, a3, -⟩ := InputBatch.holes_add_request cfg outs hb hnot hfit hc
      refine ih (h.add_request hb hsp hnot ?_ hc) a1 hnd.2 (fun k hk' => ?_) hrest
      · rw [hid]
        exact generatorOf_of_lookup hst
      · rw [a3, not_or, hid]
        exact ⟨fun heq => hnd.1 (heq ▸ hk'), hfresh k (List.mem_cons_of_mem _ hk')⟩

theorem update_states_generators {cfg : RunnerConfig} {sets : SetOrder} {so : SchedulerOutput}
    (h : Consistent cfg rs) (hso : Fits rs so) (hs : Seeded rs.requests)
    (hg : Generators (generatorOf rs.requests) rs.input_batch)
    (hr : update_states cfg sets rs so = some rs') :
    Seeded rs'.requests ∧ Continues rs.next_ref rs.requests rs'.requests ∧
      rs.next_ref ≤ rs'.next_ref ∧ Generators (generatorOf rs'.requests) rs'.input_batch := by
  obtain ⟨b₁, removed₁, b₂, removed₂, rs₃, rs₄, to_add, b₅, removed₅, h1, h2, h3, h4, h5, rfl⟩ :=
    update_states_phases cfg sets hr
  have hp := phases_spec cfg sets h hso h1 h2 h3 h4 h5
  -- the requests that stay in the batch keep their states until those of the step are updated
  have g₁ := remove_all_generators rfl _ hg h.full h1
  have g₂ := remove_all_generators rfl _ g₁ (remove_all_spec cfg.batch _ h.full h1).1 h2
  obtain ⟨rq, np, outs, nx, n3⟩ := hp.new_frame
  have hbatch : rs₃.input_batch = b₂ := by rw [n3]
  have g₃ : Generators (generatorOf rs₃.requests) rs₃.input_batch := by
    rw [hbatch]
    refine g₂.congr fun id hid => ?_
    unfold generatorOf
    rw [hp.new_other id fun hnew => hp.fresh id hnew hid, if_neg ((hp.kept id).mp hid).2.1]
  obtain ⟨s₃, c₃⟩ := add_new_reqs_seeded _ (popAll_seeded hs so.finished_req_ids) h3
  obtain ⟨s₄, c₄, g₄⟩ := update_cached_reqs_generators rs.next_ref _ s₃ g₃ h4
  have hfresh : ∀ id ∈ to_add, id ∉ rs₄.input_batch.req_id_to_index := by
    intro id hid
    rw [hp.cached_index]
    exact ((hp.mem_to_add id).mp hid).2
  have g₅ := add_all_generators hp.known s₄ to_add g₄ hp.cached_holes hp.to_add_nodup hfresh h5
  obtain ⟨b₄, rq', c5⟩ := hp.cached_frame
  have hnext : rs.next_ref ≤ rs₄.next_ref := by
    rw [c5]
    exact hp.new_next_ref
  refine ⟨s₄, (popAll_continues _ _ _).trans (c₃.trans c₄), hnext, ?_⟩
  dsimp only
  split
  · exact g₅.condense hp.added_holes hp.added_desc
  · exact g₅

end TTXla.VllmTT.Runner
