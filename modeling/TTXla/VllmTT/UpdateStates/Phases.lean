import TTXla.VllmTT.UpdateStates

-- What each phase of `_update_states` does, as a map from request ids to rows.
namespace TTXla.VllmTT.Runner

open InputBatch (Row AddedRow Holes)

variable {T : Type} [BlockTable T]

-- The cached states: their ids, and output lists that no two of them share.
structure Known (max_model_len : Nat) (requests : Dict ReqId CachedRequestState)
    (outs : OutRef → List Token) (next_ref : Nat) : Prop where
  req_id : ∀ id st, requests.lookup id = some st → st.req_id = id
  ref_lt : ∀ id st, requests.lookup id = some st → st.output_token_ids < next_ref
  ref_inj : ∀ id id' st st', requests.lookup id = some st → requests.lookup id' = some st' →
    st.output_token_ids = st'.output_token_ids → id = id'
  fits : ∀ id st, requests.lookup id = some st →
    st.num_tokens outs ≤ max_model_len ∨ outs st.output_token_ids = []

-- Every row of the batch is the row of the cached state of its request.
def Rows (outs : OutRef → List Token) (requests : Dict ReqId CachedRequestState)
    (b : InputBatch T) : Prop :=
  ∀ id r, b.rowOf id = some r → ∃ st, requests.lookup id = some st ∧
    AddedRow outs st (BlockTable.groups b.block_table) r

theorem rowOf_eq_none {b : InputBatch T} {id : ReqId} :
    b.rowOf id = none ↔ id ∉ b.req_id_to_index := by
  simp [InputBatch.rowOf, AList.lookup_eq_none]

theorem Known.erase {n : Nat} {requests : Dict ReqId CachedRequestState}
    {outs : OutRef → List Token} {next : Nat} (h : Known n requests outs next) (id : ReqId) :
    Known n (requests.erase id) outs next := by
  have hlk : ∀ k st, (requests.erase id).lookup k = some st → requests.lookup k = some st := by
    intro k st hk
    rw [Dict.lookup_erase'] at hk
    split at hk
    · cases hk
    · exact hk
  exact ⟨fun k st hk => h.req_id k st (hlk k st hk), fun k st hk => h.ref_lt k st (hlk k st hk),
    fun k k' st st' hk hk' => h.ref_inj k k' st st' (hlk k st hk) (hlk k' st' hk'),
    fun k st hk => h.fits k st (hlk k st hk)⟩

theorem Known.popAll {n : Nat} {requests : Dict ReqId CachedRequestState}
    {outs : OutRef → List Token} {next : Nat} (h : Known n requests outs next)
    (ids : List ReqId) : Known n (popAll requests ids) outs next := by
  induction ids generalizing requests with
  | nil => exact h
  | cons id ids ih => exact ih (h.erase id)

theorem lookup_popAll {υ : Type} (d : Dict ReqId υ) (ids : List ReqId) (k : ReqId) :
    (popAll d ids).lookup k = if k ∈ ids then none else d.lookup k := by
  induction ids generalizing d with
  | nil => simp [popAll]
  | cons id ids ih =>
      rw [popAll, List.foldl_cons, ← popAll, ih, Dict.lookup_erase']
      by_cases hk : k = id <;> by_cases hm : k ∈ ids <;> simp [hk, hm]

-- Removal: the rows of the other requests stay.
theorem remove_all_spec (cfg : BatchConfig) (ids : List ReqId) {b b' : InputBatch T}
    {removed removed' : List Nat} (h : b.Holes removed)
    (hr : remove_all cfg ids (b, removed) = some (b', removed')) :
    b'.Holes removed' ∧ b'.req_ids.length = b.req_ids.length ∧
      BlockTable.groups b'.block_table = BlockTable.groups b.block_table ∧
      (∀ k, b'.req_id_to_index.lookup k =
        if k ∈ ids then none else b.req_id_to_index.lookup k) ∧
      ∀ k, b'.rowOf k = if k ∈ ids then none else b.rowOf k := by
  induction ids generalizing b removed with
  | nil =>
      cases hr
      exact ⟨h, rfl, rfl, by simp, by simp⟩
  | cons id ids ih =>
      obtain ⟨⟨r, c⟩, hc, hrest⟩ := Option.bind_eq_some_iff.mp hr
      obtain ⟨h1, hl, h2, h3, h4⟩ := InputBatch.holes_remove_request cfg h hc
      obtain ⟨i1, il, i2, i3, i4⟩ := ih h1 hrest
      refine ⟨i1, il.trans hl, i2.trans h3, fun k => ?_, fun k => ?_⟩
      · rw [i3, h2]
        by_cases hk : k = id <;> by_cases hm : k ∈ ids <;> simp [hk, hm]
      · rw [i4, h4]
        by_cases hk : k = id <;> by_cases hm : k ∈ ids <;> simp [hk, hm]

-- The state that `add_new_reqs` caches for a new request.
def IsNew (d : NewRequestData) (outs : OutRef → List Token) (st : CachedRequestState) : Prop :=
  ∃ ref sp, d.sampling_params = some sp ∧ st = new_state ref d sp ∧ outs ref = []

theorem Known.add_new {n : Nat} {requests : Dict ReqId CachedRequestState}
    {outs : OutRef → List Token} {next : Nat} (h : Known n requests outs next)
    (d : NewRequestData) (sp : SamplingParams) :
    Known n (requests.insert d.req_id (new_state next d sp))
      (Function.update outs next []) (next + 1) := by
  have hold : ∀ k st, requests.lookup k = some st →
      (Function.update outs next []) st.output_token_ids = outs st.output_token_ids := by
    intro k st hk
    exact Function.update_of_ne (Nat.ne_of_lt (h.ref_lt k st hk)) _ _
  refine ⟨fun k st hk => ?_, fun k st hk => ?_, fun k k' st st' hk hk' he => ?_,
    fun k st hk => ?_⟩
  · rw [Dict.lookup_insert'] at hk
    split at hk
    · rename_i he; cases hk; exact he.symm
    · exact h.req_id k st hk
  · rw [Dict.lookup_insert'] at hk
    split at hk
    · cases hk; exact Nat.lt_succ_self _
    · exact Nat.lt_succ_of_lt (h.ref_lt k st hk)
  · rw [Dict.lookup_insert'] at hk hk'
    split at hk <;> split at hk'
    · rename_i e e'; rw [e, e']
    · cases hk
      exact absurd he.symm (Nat.ne_of_lt (h.ref_lt k' st' hk'))
    · cases hk'
      exact absurd he (Nat.ne_of_lt (h.ref_lt k st hk))
    · exact h.ref_inj k k' st st' hk hk' he
  · rw [Dict.lookup_insert'] at hk
    split at hk
    · cases hk; right; simp [new_state]
    · simp only [CachedRequestState.num_tokens, hold k st hk]
      exact h.fits k st hk

theorem congr_outs {outs outs' : OutRef → List Token} {st : CachedRequestState}
    {groups : Nat} {r : Row} (h : AddedRow outs st groups r)
    (he : outs' st.output_token_ids = outs st.output_token_ids) : AddedRow outs' st groups r := by
  refine ⟨?_, h.num_prompt_tokens, h.num_computed_tokens, ?_, h.blocks, h.output_token_ids⟩
  · rw [h.num_tokens, CachedRequestState.num_tokens, CachedRequestState.num_tokens, he]
  · rw [h.token_ids, CachedRequestState.history, CachedRequestState.history, he]

-- New requests: the batch is untouched, and so are the states of its requests.
theorem add_new_reqs_spec (cfg : RunnerConfig) (ds : List NewRequestData) {rs rs' : Runner T}
    {n : Nat} (hk : Known n rs.requests rs.outs rs.next_ref)
    (hrows : Rows rs.outs rs.requests rs.input_batch)
    (hnd : (ds.map NewRequestData.req_id).Nodup)
    (hfresh : ∀ d ∈ ds, d.req_id ∉ rs.input_batch.req_id_to_index)
    (h : add_new_reqs cfg ds rs = some rs') :
    Known n rs'.requests rs'.outs rs'.next_ref ∧
      Rows rs'.outs rs'.requests rs'.input_batch ∧
      (∃ requests num_prompt_logprobs outs next_ref, rs' = { rs with
        requests := requests, num_prompt_logprobs := num_prompt_logprobs
        outs := outs, next_ref := next_ref }) ∧
      rs.next_ref ≤ rs'.next_ref ∧
      (∀ ref, ref < rs.next_ref → rs'.outs ref = rs.outs ref) ∧
      (∀ id, id ∉ ds.map NewRequestData.req_id →
        rs'.requests.lookup id = rs.requests.lookup id) ∧
      ∀ d ∈ ds, ∃ st, rs'.requests.lookup d.req_id = some st ∧ IsNew d rs'.outs st := by
  induction ds generalizing rs with
  | nil =>
      cases h
      exact ⟨hk, hrows, ⟨_, _, _, _, rfl⟩, Nat.le_refl _, fun _ _ => rfl, fun _ _ => rfl,
        fun d hd => by cases hd⟩
  | cons d ds ih =>
      obtain ⟨mid, hmid, hrest⟩ := Option.bind_eq_some_iff.mp h
      obtain ⟨sp, hsp, hmid⟩ := Option.bind_eq_some_iff.mp hmid
      cases hmid
      rw [List.map_cons, List.nodup_cons] at hnd
      have hd : d.req_id ∉ rs.input_batch.req_id_to_index := hfresh d List.mem_cons_self
      have hrows' : Rows (Function.update rs.outs rs.next_ref [])
          (rs.requests.insert d.req_id (new_state rs.next_ref d sp)) rs.input_batch := by
        intro id r hr
        obtain ⟨st, hst, hadd⟩ := hrows id r hr
        have hne : id ≠ d.req_id := by
          rintro rfl
          rw [rowOf_eq_none.mpr hd] at hr
          cases hr
        refine ⟨st, by rw [Dict.lookup_insert', if_neg hne]; exact hst, congr_outs hadd ?_⟩
        exact Function.update_of_ne (Nat.ne_of_lt (hk.ref_lt id st hst)) _ _
      have hk' := hk.add_new d sp
      generalize hmid : rs.next_ref = next at *
      obtain ⟨i1, i2, ⟨requests, num, outs, ref', i3⟩, i7, i8, i9, i10⟩ := @ih { rs with
          requests := rs.requests.insert d.req_id (new_state next d sp)
          outs := Function.update rs.outs next []
          next_ref := next + 1
          num_prompt_logprobs := _ } hk' hrows' hnd.2
        (fun d' hd' => hfresh d' (List.mem_cons_of_mem _ hd')) hrest
      simp only at i7 i8 i9
      refine ⟨i1, i2, ⟨_, _, _, _, i3⟩, by omega, fun ref href => ?_, fun id hid => ?_,
        fun d' hd' => ?_⟩
      · rw [i8 ref (by omega), Function.update_of_ne (Nat.ne_of_lt href)]
      · rw [List.map_cons, List.mem_cons, not_or] at hid
        rw [i9 id hid.2, Dict.lookup_insert', if_neg hid.1]
      · rcases List.mem_cons.mp hd' with rfl | hd'
        · refine ⟨new_state next d' sp, ?_, next, sp, hsp, rfl, ?_⟩
          · rw [i9 _ hnd.1, Dict.lookup_insert', if_pos rfl]
          · rw [i8 _ (Nat.lt_succ_self _), Function.update_self]
        · exact i10 d' hd'

theorem getElem?_zipExtend (as bs : List (List Nat)) (g : Nat) :
    (zipExtend as bs)[g]? = (as[g]?).map fun a => a ++ (bs[g]?).getD [] := by
  induction as generalizing bs g with
  | nil => simp [zipExtend]
  | cons a as ih =>
      cases bs with
      | nil => simp [zipExtend]
      | cons b bs =>
          cases g with
          | zero => simp [zipExtend]
          | succ g => simpa [zipExtend] using ih bs g

-- A cached request in the batch: its row follows its state.
theorem refresh_row_spec {b b' : InputBatch T} {removed : List Nat} {id : ReqId} {i : Nat}
    {outs : OutRef → List Token} {st st' : CachedRequestState} {r : Row} {d : CachedRequestData}
    (h : b.Holes removed) (hi : b.req_id_to_index.lookup id = some i)
    (hst' : cached_state false st d = some st')
    (hrow : b.rowOf id = some r) (hadd : AddedRow outs st (BlockTable.groups b.block_table) r)
    (hr : refresh_row b i d.num_computed_tokens d.new_block_ids = some b') :
    b'.Holes removed ∧ b'.req_id_to_index = b.req_id_to_index ∧
      BlockTable.groups b'.block_table = BlockTable.groups b.block_table ∧
      (∃ r', b'.rowOf id = some r' ∧
        AddedRow outs st' (BlockTable.groups b.block_table) r') ∧
      ∀ k, k ≠ id → b'.rowOf k = b.rowOf k := by
  have hother : ∀ c : InputBatch T, c.req_id_to_index = b.req_id_to_index →
      (∀ j, j ≠ i → c.row j = b.row j) → ∀ k, k ≠ id → c.rowOf k = b.rowOf k := by
    intro c hc hj k hk
    unfold InputBatch.rowOf
    rw [hc]
    cases hl : b.req_id_to_index.lookup k with
    | none => rfl
    | some j =>
        have : j ≠ i := by rintro rfl; exact hk (h.indexed.inverse.unique hl hi)
        rw [Option.map_some, Option.map_some, hj j this]
  have hrowi : r = b.row i := by
    unfold InputBatch.rowOf at hrow
    rw [hi, Option.map_some, Option.some.injEq] at hrow
    exact hrow.symm
  subst hrowi
  unfold refresh_row at hr
  cases hn : d.new_block_ids with
  | none =>
      simp only [hn, Option.pure_def, Option.some.injEq] at hr
      simp only [cached_state, hn, Option.some.injEq] at hst'
      subst hr hst'
      refine ⟨⟨⟨h.indexed.inverse, h.indexed.length⟩, h.nodup, h.vacant, h.count⟩, rfl, rfl,
        ⟨_, by unfold InputBatch.rowOf; rw [hi]; rfl, ?_⟩, hother _ rfl fun j hj => ?_⟩
      · exact ⟨hadd.num_tokens, hadd.num_prompt_tokens, by simp [InputBatch.row],
          hadd.token_ids, hadd.blocks, hadd.output_token_ids⟩
      · ext1 <;> simp [InputBatch.row, Function.update_of_ne hj]
  | some ids =>
      simp only [hn] at hr
      obtain ⟨t, ht, hb⟩ := Option.bind_eq_some_iff.mp hr
      simp only [Option.pure_def, Option.some.injEq] at hb
      simp only [cached_state, hn, Option.some.injEq] at hst'
      subst hb hst'
      have hg := (BlockTable.append_row_spec ht).1
      refine ⟨⟨⟨h.indexed.inverse, h.indexed.length⟩, h.nodup, h.vacant, h.count⟩, rfl, hg,
        ⟨_, by unfold InputBatch.rowOf; rw [hi]; rfl, ?_⟩, hother _ rfl fun j hj => ?_⟩
      · refine ⟨hadd.num_tokens, hadd.num_prompt_tokens, by simp [InputBatch.row],
          hadd.token_ids, fun g hlt => ?_, hadd.output_token_ids⟩
        obtain ⟨⟨blk, hblk, happ⟩, -⟩ := BlockTable.blocks_append_row ht g hlt
        have hold := hadd.blocks g hlt
        simp only [InputBatch.row, hlt, ite_true] at hold
        simp only [InputBatch.row, hg, hlt, ite_true]
        rw [getElem?_zipExtend, hold, hblk, happ]
        rfl
      · ext1 <;> simp only [InputBatch.row, Function.update_of_ne hj, hg]
        funext g
        split
        · rename_i hlt
          exact (BlockTable.blocks_append_row ht g hlt).2 j hj
        · rfl

theorem cached_state_same {resumed : Bool} {st st' : CachedRequestState} {d : CachedRequestData}
    (h : cached_state resumed st d = some st') :
    st'.req_id = st.req_id ∧ st'.prompt_token_ids = st.prompt_token_ids ∧
      st'.output_token_ids = st.output_token_ids ∧ st'.sampling_params = st.sampling_params ∧
      st'.generator = st.generator ∧ st'.num_computed_tokens = d.num_computed_tokens := by
  unfold cached_state at h
  split at h <;> cases h <;> exact ⟨rfl, rfl, rfl, rfl, rfl, rfl⟩

theorem Known.replace {n : Nat} {requests : Dict ReqId CachedRequestState}
    {outs : OutRef → List Token} {next : Nat} (h : Known n requests outs next)
    {id : ReqId} {st st' : CachedRequestState} (hst : requests.lookup id = some st)
    (hid : st'.req_id = st.req_id) (hp : st'.prompt_token_ids = st.prompt_token_ids)
    (ho : st'.output_token_ids = st.output_token_ids) :
    Known n (requests.insert id st') outs next := by
  have hlk : ∀ k s, (requests.insert id st').lookup k = some s → ∃ s₀,
      requests.lookup k = some s₀ ∧ s.req_id = s₀.req_id ∧
        s.prompt_token_ids = s₀.prompt_token_ids ∧ s.output_token_ids = s₀.output_token_ids := by
    intro k s hk
    rw [Dict.lookup_insert'] at hk
    split at hk
    · rename_i he
      cases hk
      exact ⟨st, he ▸ hst, hid, hp, ho⟩
    · exact ⟨s, hk, rfl, rfl, rfl⟩
  refine ⟨fun k s hk => ?_, fun k s hk => ?_, fun k k' s s' hk hk' he => ?_, fun k s hk => ?_⟩
  · obtain ⟨s₀, h0, h1, -, -⟩ := hlk k s hk
    exact h1.trans (h.req_id k s₀ h0)
  · obtain ⟨s₀, h0, -, -, h3⟩ := hlk k s hk
    exact h3 ▸ h.ref_lt k s₀ h0
  · obtain ⟨s₀, h0, -, -, h3⟩ := hlk k s hk
    obtain ⟨s₀', h0', -, -, h3'⟩ := hlk k' s' hk'
    exact h.ref_inj k k' s₀ s₀' h0 h0' (by rw [← h3, ← h3', he])
  · obtain ⟨s₀, h0, -, h2, h3⟩ := hlk k s hk
    simp only [CachedRequestState.num_tokens, h2, h3]
    exact h.fits k s₀ h0

-- One running or resumed request: its state, and its row if it has one.
theorem update_cached_req_spec (resumed : Finset ReqId) (d : CachedRequestData)
    {rs rs' : Runner T} {to_add to_add' : List ReqId} {removed : List Nat} {n : Nat}
    (hh : rs.input_batch.Holes removed) (hk : Known n rs.requests rs.outs rs.next_ref)
    (hrows : Rows rs.outs rs.requests rs.input_batch)
    (hres : d.req_id ∈ resumed → d.req_id ∉ rs.input_batch.req_id_to_index)
    (h : update_cached_req resumed rs to_add d = some (rs', to_add')) :
    rs'.input_batch.Holes removed ∧ Known n rs'.requests rs'.outs rs'.next_ref ∧
      Rows rs'.outs rs'.requests rs'.input_batch ∧
      rs'.input_batch.req_id_to_index = rs.input_batch.req_id_to_index ∧
      BlockTable.groups rs'.input_batch.block_table =
        BlockTable.groups rs.input_batch.block_table ∧
      (∃ b requests, rs' = { rs with input_batch := b, requests := requests }) ∧
      to_add' = to_add ++ [d.req_id].filter (fun id => id ∉ rs.input_batch.req_id_to_index) ∧
      (∀ id, id ≠ d.req_id → rs'.requests.lookup id = rs.requests.lookup id) ∧
      ∃ st st', rs.requests.lookup d.req_id = some st ∧
        cached_state (decide (d.req_id ∈ resumed)) st d = some st' ∧
        rs'.requests.lookup d.req_id = some st' := by
  obtain ⟨st, hst, h⟩ := Option.bind_eq_some_iff.mp h
  obtain ⟨st', hst', h⟩ := Option.bind_eq_some_iff.mp h
  obtain ⟨e1, e2, e3, -⟩ := cached_state_same hst'
  have hk' := hk.replace hst e1 e2 e3
  have hsame : ∀ id, id ≠ d.req_id →
      (rs.requests.insert d.req_id st').lookup id = rs.requests.lookup id := fun id hid => by
    rw [Dict.lookup_insert', if_neg hid]
  have hself : (rs.requests.insert d.req_id st').lookup d.req_id = some st' := by
    rw [Dict.lookup_insert', if_pos rfl]
  dsimp only at h
  cases hi : rs.input_batch.req_id_to_index.lookup d.req_id with
  | none =>
      rw [hi] at h
      cases h
      have hnot : d.req_id ∉ rs.input_batch.req_id_to_index := AList.lookup_eq_none.mp hi
      refine ⟨hh, hk', fun id r hr => ?_, rfl, rfl, ⟨_, _, rfl⟩, by simp [hnot], hsame,
        st, st', hst, hst', hself⟩
      obtain ⟨s, hs, ha⟩ := hrows id r hr
      have hne : id ≠ d.req_id := by
        rintro rfl
        rw [rowOf_eq_none.mpr hnot] at hr
        cases hr
      exact ⟨s, (hsame id hne).trans hs, ha⟩
  | some i =>
      rw [hi] at h
      obtain ⟨b, hb, h⟩ := Option.bind_eq_some_iff.mp h
      cases h
      have hmem : d.req_id ∈ rs.input_batch.req_id_to_index :=
        (Dict.mem_iff _ _).mpr ⟨i, hi⟩
      have hrow : rs.input_batch.rowOf d.req_id = some (rs.input_batch.row i) := by
        unfold InputBatch.rowOf; rw [hi]; rfl
      obtain ⟨s, hs, ha⟩ := hrows _ _ hrow
      obtain rfl : s = st := Option.some.inj (hs.symm.trans hst)
      have hnr : decide (d.req_id ∈ resumed) = false := by
        simpa using fun hr => hres hr hmem
      have hst₁ := hst'
      rw [hnr] at hst₁
      obtain ⟨r1, r2, r3, ⟨r', r4, r5⟩, r6⟩ := refresh_row_spec hh hi hst₁ hrow ha hb
      refine ⟨r1, hk', fun id r hr => ?_, r2, r3, ⟨_, _, rfl⟩, by simp [hmem], hsame,
        s, st', hst, hst', hself⟩
      dsimp only at hr ⊢
      rw [r3]
      by_cases he : id = d.req_id
      · subst he
        rw [r4] at hr
        cases hr
        exact ⟨st', hself, r5⟩
      · rw [r6 id he] at hr
        obtain ⟨s', hs', ha'⟩ := hrows id r hr
        exact ⟨s', (hsame id he).trans hs', ha'⟩

-- Running and resumed requests.
theorem update_cached_reqs_spec (resumed : Finset ReqId) (ds : List CachedRequestData)
    {rs rs' : Runner T} {to_add to_add' : List ReqId} {removed : List Nat} {n : Nat}
    (hh : rs.input_batch.Holes removed) (hk : Known n rs.requests rs.outs rs.next_ref)
    (hrows : Rows rs.outs rs.requests rs.input_batch)
    (hnd : (ds.map CachedRequestData.req_id).Nodup)
    (hres : ∀ d ∈ ds, d.req_id ∈ resumed → d.req_id ∉ rs.input_batch.req_id_to_index)
    (h : update_cached_reqs resumed ds (rs, to_add) = some (rs', to_add')) :
    rs'.input_batch.Holes removed ∧ Known n rs'.requests rs'.outs rs'.next_ref ∧
      Rows rs'.outs rs'.requests rs'.input_batch ∧
      rs'.input_batch.req_id_to_index = rs.input_batch.req_id_to_index ∧
      BlockTable.groups rs'.input_batch.block_table =
        BlockTable.groups rs.input_batch.block_table ∧
      (∃ b requests, rs' = { rs with input_batch := b, requests := requests }) ∧
      to_add' = to_add ++ (ds.map CachedRequestData.req_id).filter
        (fun id => id ∉ rs.input_batch.req_id_to_index) ∧
      (∀ id, id ∉ ds.map CachedRequestData.req_id →
        rs'.requests.lookup id = rs.requests.lookup id) ∧
      ∀ d ∈ ds, ∃ st st', rs.requests.lookup d.req_id = some st ∧
        cached_state (decide (d.req_id ∈ resumed)) st d = some st' ∧
        rs'.requests.lookup d.req_id = some st' := by
  induction ds generalizing rs to_add with
  | nil =>
      cases h
      exact ⟨hh, hk, hrows, rfl, rfl, ⟨_, _, rfl⟩, by simp, fun _ _ => rfl,
        fun d hd => by cases hd⟩
  | cons d ds ih =>
      obtain ⟨⟨mid, to_add₁⟩, hmid, hrest⟩ := Option.bind_eq_some_iff.mp h
      rw [List.map_cons, List.nodup_cons] at hnd
      obtain ⟨s1, s2, s3, s4, sg, ⟨b, requests, s5⟩, s6, s7, st, st', s8, s9, s10⟩ :=
        update_cached_req_spec resumed d hh hk hrows (hres d List.mem_cons_self) hmid
      have hlater : ∀ d' ∈ ds, d'.req_id ∈ resumed →
          d'.req_id ∉ mid.input_batch.req_id_to_index := fun d' hd' => by
        rw [s4]; exact hres d' (List.mem_cons_of_mem _ hd')
      obtain ⟨i1, i2, i3, i4, ig, ⟨b', requests', i5⟩, i6, i7, i8⟩ :=
        ih s1 s2 s3 hnd.2 hlater hrest
      refine ⟨i1, i2, i3, i4.trans s4, ig.trans sg, ⟨b', requests', by rw [i5, s5]⟩, ?_, fun id hid => ?_,
        fun d' hd' => ?_⟩
      · rw [i6, s6, List.map_cons, List.append_assoc]
        simp only [s4, ← List.filter_append, List.singleton_append]
      · rw [List.map_cons, List.mem_cons, not_or] at hid
        rw [i7 id hid.2, s7 id hid.1]
      · rcases List.mem_cons.mp hd' with rfl | hd'
        · exact ⟨st, st', s8, s9, (i7 _ hnd.1).trans s10⟩
        · obtain ⟨s, s', hs, hs', hl⟩ := i8 d' hd'
          have hne : d'.req_id ≠ d.req_id := fun he =>
            hnd.1 (he ▸ List.mem_map_of_mem hd')
          exact ⟨s, s', (s7 _ hne).symm.trans hs, hs', hl⟩

theorem popLast_eq (removed : List Nat) :
    popLast removed = (removed.getLast?, removed.dropLast) := by
  unfold popLast
  cases hl : removed.getLast? with
  | some i => rfl
  | none => rw [List.getLast?_eq_none_iff.mp hl]; rfl

theorem add_all_prompt_le (cfg : BatchConfig) {outs : OutRef → List Token}
    {requests : Dict ReqId CachedRequestState} (ids : List ReqId) {b b' : InputBatch T}
    {removed removed' : List Nat}
    (hr : add_all cfg outs requests ids (b, removed) = some (b', removed')) :
    ∀ id ∈ ids, ∀ st ∈ requests.lookup id, st.prompt_token_ids.length ≤ cfg.max_model_len := by
  induction ids generalizing b removed with
  | nil => simp
  | cons id ids ih =>
      obtain ⟨st, hst, hr⟩ := Option.bind_eq_some_iff.mp hr
      obtain ⟨c, hc, hrest⟩ := Option.bind_eq_some_iff.mp hr
      intro k hk st' hst'
      rcases List.mem_cons.mp hk with rfl | hk
      · obtain rfl := Option.some.inj (hst.symm.trans hst')
        exact InputBatch.prompt_length_le_of_add cfg outs hc
      · exact ih hrest k hk st' hst'

-- Additions: each request gets the row of its cached state.
theorem add_all_spec (cfg : BatchConfig) {outs : OutRef → List Token}
    {requests : Dict ReqId CachedRequestState} {next : Nat}
    (hk : Known cfg.max_model_len requests outs next) (ids : List ReqId)
    {b b' : InputBatch T} {removed removed' : List Nat} (h : b.Holes removed)
    (hdesc : removed.reverse.Pairwise (· < ·)) (hb : b.req_ids.length ≤ cfg.max_num_reqs)
    (hrows : Rows outs requests b) (hnd : ids.Nodup)
    (hfresh : ∀ id ∈ ids, id ∉ b.req_id_to_index)
    (hr : add_all cfg outs requests ids (b, removed) = some (b', removed')) :
    b'.Holes removed' ∧ removed'.reverse.Pairwise (· < ·) ∧ Rows outs requests b' ∧
      b'.req_ids.length ≤ cfg.max_num_reqs ∧
      BlockTable.groups b'.block_table = BlockTable.groups b.block_table ∧
      ∀ k, k ∈ b'.req_id_to_index ↔ k ∈ ids ∨ k ∈ b.req_id_to_index := by
  induction ids generalizing b removed with
  | nil =>
      cases hr
      exact ⟨h, hdesc, hrows, hb, rfl, by simp⟩
  | cons id ids ih =>
      obtain ⟨st, hst, hr⟩ := Option.bind_eq_some_iff.mp hr
      rw [popLast_eq] at hr
      obtain ⟨c, hc, hrest⟩ := Option.bind_eq_some_iff.mp hr
      have hid : st.req_id = id := hk.req_id id st hst
      have hp := InputBatch.prompt_length_le_of_add cfg outs hc
      have hfit : st.num_tokens outs ≤ cfg.max_model_len := by
        rcases hk.fits id st hst with hf | hf
        · exact hf
        · simpa [CachedRequestState.num_tokens, hf] using hp
      have hlt := InputBatch.index_lt_of_add cfg outs hc
      rw [List.nodup_cons] at hnd
      have hnot : st.req_id ∉ b.req_id_to_index := hid ▸ hfresh id List.mem_cons_self
      obtain ⟨a1, a2, a3, a4, r, a5, a6⟩ :=
        InputBatch.holes_add_request cfg outs h hnot hfit hc
      -- a hole is filled in place, an appended row is the row that was checked
      have hbc : c.req_ids.length ≤ cfg.max_num_reqs := by
        have hcount := a1.count
        have hl := h.count
        rw [List.length_dropLast] at hcount
        cases hrm : removed with
        | nil =>
            subst hrm
            simp only [List.getLast?_nil, Option.getD_none, List.length_nil] at hlt hcount
            omega
        | cons i is =>
            rw [hrm, List.length_cons] at hl hcount
            omega
      have hrows' : Rows outs requests c := by
        intro k r' hr'
        rw [a6] at hr'
        rw [a4]
        split at hr'
        · rename_i he
          cases hr'
          exact ⟨st, by rw [he, hid]; exact hst, a5⟩
        · exact hrows k r' hr'
      have hdesc' : removed.dropLast.reverse.Pairwise (· < ·) := by
        rw [List.pairwise_reverse] at hdesc ⊢
        exact hdesc.sublist (List.dropLast_sublist _)
      obtain ⟨i1, i2, i3, i4, i5, i6⟩ := ih a1 hdesc' hbc hrows' hnd.2 (fun k hkm => by
        rw [a3, not_or, hid]
        exact ⟨fun he => hnd.1 (he ▸ hkm), hfresh k (List.mem_cons_of_mem _ hkm)⟩) hrest
      refine ⟨i1, i2, i3, i4, i5.trans a4, fun k => ?_⟩
      rw [i6, a3, hid, List.mem_cons]
      constructor
      · rintro (hk' | rfl | hk')
        · exact Or.inl (Or.inr hk')
        · exact Or.inl (Or.inl rfl)
        · exact Or.inr hk'
      · rintro ((rfl | hk') | hk')
        · exact Or.inr (Or.inl rfl)
        · exact Or.inl hk'
        · exact Or.inr (Or.inr hk')

end TTXla.VllmTT.Runner
