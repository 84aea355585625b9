import TTXla.VllmTT.SeededSampling
import TTXla.VllmTT.ModelRunner.Split
import TTXla.VllmTT.UpdateStates.Generators

-- The noise of a seeded request: each of its tokens takes the next row of its seed, as long as
-- every step draws once for each token.
namespace TTXla.VllmTT

namespace Draws

variable {N : Type} {noise : Noise N}

-- Every row draws from its own generator.
theorem draw_rows_spec (noise : Noise N) {l : List ((_ : Nat) × Generator)} (hkeys : (l.map Sigma.fst).Nodup)
    (hrefs : (l.map fun e => e.2.ref).Nodup) (s : (Nat → N) × Draws) :
    (∀ e ∈ l, (l.foldl (draw_row noise) s).1 e.1 =
        noise.seeded e.2.seed (s.2.position e.2.ref) ∧
      (l.foldl (draw_row noise) s).2.position e.2.ref = s.2.position e.2.ref + 1) ∧
    (∀ ref, ref ∉ l.map (fun e => e.2.ref) →
      (l.foldl (draw_row noise) s).2.position ref = s.2.position ref) ∧
    ∀ i, i ∉ l.map Sigma.fst → (l.foldl (draw_row noise) s).1 i = s.1 i := by
  induction l generalizing s with
  | nil => exact ⟨fun _ he => (nomatch he), fun _ _ => rfl, fun _ _ => rfl⟩
  | cons first l ih =>
      rw [List.map_cons, List.nodup_cons] at hkeys hrefs
      obtain ⟨hdrawn, hposition, hrow⟩ := ih hkeys.2 hrefs.2 (draw_row noise s first)
      rw [List.foldl_cons]
      refine ⟨fun e he => ?_, fun ref href => ?_, fun i hi => ?_⟩
      · cases he with
        | head =>
            rw [hrow _ hkeys.1, hposition _ hrefs.1]
            exact ⟨Function.update_self _ _ _, Function.update_self _ _ _⟩
        | tail _ he =>
            obtain ⟨hnoise, hnext⟩ := hdrawn e he
            have hne : e.2.ref ≠ first.2.ref := fun heq =>
              hrefs.1 (heq ▸ List.mem_map_of_mem (f := fun e => e.2.ref) he)
            have hsame : (draw_row noise s first).2.position e.2.ref = s.2.position e.2.ref :=
              Function.update_of_ne hne _ _
            rw [hnoise, hnext, hsame]
            exact ⟨rfl, rfl⟩
      · rw [List.map_cons, List.mem_cons, not_or] at href
        rw [hposition ref href.2]
        exact Function.update_of_ne href.1 _ _
      · rw [List.map_cons, List.mem_cons, not_or] at hi
        rw [hrow i hi.2]
        exact Function.update_of_ne hi.1 _ _

theorem q_samples_empty {generators : Dict Nat Generator} {d : Draws}
    (h : ∀ i, generators.lookup i = none) : d.q_samples noise generators = (none, d) := by
  have hkeys : generators.keys = [] := by
    rw [List.eq_nil_iff_forall_not_mem]
    intro i hi
    exact AList.lookup_eq_none.mp (h i) (AList.mem_keys.mpr hi)
  unfold q_samples
  rw [hkeys]
  rfl

theorem q_samples_spec (noise : Noise N) {generators : Dict Nat Generator} {d : Draws}
    (hinj : ∀ i i' g g', generators.lookup i = some g → generators.lookup i' = some g' →
      g.ref = g'.ref → i = i') :
    (∀ i g, generators.lookup i = some g → ∃ q, (d.q_samples noise generators).1 = some q ∧
      q i = noise.seeded g.seed (d.position g.ref) ∧
      (d.q_samples noise generators).2.position g.ref = d.position g.ref + 1) ∧
    ∀ ref, (∀ i g, generators.lookup i = some g → g.ref ≠ ref) →
      (d.q_samples noise generators).2.position ref = d.position ref := by
  have hmem : ∀ e ∈ generators.entries, generators.lookup e.1 = some e.2 :=
    fun e he => AList.mem_lookup_iff.mpr he
  have hkeys : (generators.entries.map Sigma.fst).Nodup := generators.nodupKeys
  have hrefs : (generators.entries.map fun e => e.2.ref).Nodup := by
    refine List.Nodup.map_on (fun e he e' he' heq => ?_) generators.nodupKeys.nodup
    exact generators.nodupKeys.eq_of_fst_eq he he' (hinj _ _ _ _ (hmem e he) (hmem e' he') heq)
  obtain ⟨hdrawn, hposition, -⟩ := draw_rows_spec noise hkeys hrefs
    (noise.global d.fills, { d with fills := d.fills + 1 })
  constructor
  · intro i g hg
    have hne : generators.keys.isEmpty = false := by
      have hi : i ∈ generators.keys := AList.mem_keys.mp ((Dict.mem_iff _ _).mpr ⟨g, hg⟩)
      cases hk : generators.keys with
      | nil =>
          rw [hk] at hi
          cases hi
      | cons => rfl
    unfold q_samples
    rw [hne]
    obtain ⟨hrow, hnext⟩ := hdrawn ⟨i, g⟩ (AList.mem_lookup_iff.mp hg)
    exact ⟨_, rfl, hrow, hnext⟩
  · intro ref href
    unfold q_samples
    split
    · rfl
    · refine hposition ref fun hmem' => ?_
      obtain ⟨e, he, heq⟩ := List.mem_map.mp hmem'
      exact href e.1 e.2 (hmem e he) heq

end Draws

namespace Runner

variable {T : Type} [BlockTable T] {κ H LP : Type} {cfg : RunnerConfig} {mode : OutOfRange}
  {model : Model κ H LP} {so : SchedulerOutput} {grammar_output : Option GrammarOutput}
  {rs rs' : Runner T} {k k' : κ}

theorem execute_chunk_generators {start_index : Nat} {e : Execution LP}
    (h : execute_chunk cfg mode model so grammar_output rs k start_index = some (e, rs', k')) :
    rs'.input_batch.generators = rs.input_batch.generators := by
  obtain ⟨inp, rs₁, si, h1, h2, -⟩ := execute_chunk_inputs h
  obtain ⟨all_counts, hp⟩ := prepare_inputs_spec cfg h1
  have hprepared : rs₁.input_batch.generators = rs.input_batch.generators := by
    rw [hp.runner]
    rfl
  rw [← hprepared]
  obtain ⟨⟨md, b⟩, hb, h2⟩ := Option.bind_eq_some_iff.mp h2
  obtain ⟨_, _, _, _, _, _, _, rfl⟩ := SamplingMetadata.from_input_batch_batch hb
  cases grammar_output with
  | none =>
      cases h2
      rfl
  | some g =>
      obtain ⟨bitmask, -, h2⟩ := Option.bind_eq_some_iff.mp h2
      cases h2
      rfl

omit [BlockTable T] in
theorem append_token_frame {valid : List (List Token)} {e : Nat × CachedRequestState × Nat}
    (h : append_token cfg valid rs e = some rs') :
    e.1 < valid.length ∧ rs'.requests = rs.requests ∧ rs'.next_ref = rs.next_ref ∧
      rs'.input_batch.req_id_to_index = rs.input_batch.req_id_to_index ∧
      rs'.input_batch.generators = rs.input_batch.generators ∧
      ∃ token, rs'.outs = Function.update rs.outs e.2.1.output_token_ids
        (rs.outs e.2.1.output_token_ids ++ [token]) := by
  unfold append_token at h
  simp only [Option.bind_eq_bind, Option.bind_eq_some_iff, Options.guard_eq_some] at h
  obtain ⟨sampled, hsampled, token, -, -, -, h⟩ := h
  cases h
  exact ⟨(List.getElem?_eq_some_iff.mp hsampled).1, rfl, rfl, rfl, rfl, token, rfl⟩

omit [BlockTable T] in
-- Each output list of the loop gets one token.
theorem append_all_frame {valid : List (List Token)} {l : List (Nat × CachedRequestState × Nat)}
    (hnd : (l.map fun e => e.2.1.output_token_ids).Nodup)
    (h : l.foldlM (append_token cfg valid) rs = some rs') :
    rs'.requests = rs.requests ∧ rs'.next_ref = rs.next_ref ∧
      rs'.input_batch.req_id_to_index = rs.input_batch.req_id_to_index ∧
      rs'.input_batch.generators = rs.input_batch.generators ∧
      (∀ e ∈ l, e.1 < valid.length ∧ ∃ token, rs'.outs e.2.1.output_token_ids =
        rs.outs e.2.1.output_token_ids ++ [token]) ∧
      ∀ ref, ref ∉ l.map (fun e => e.2.1.output_token_ids) → rs'.outs ref = rs.outs ref := by
  induction l generalizing rs with
  | nil =>
      cases h
      exact ⟨rfl, rfl, rfl, rfl, fun _ he => (nomatch he), fun _ _ => rfl⟩
  | cons first l ih =>
      rw [List.foldlM_cons] at h
      obtain ⟨mid, hmid, hrest⟩ := Option.bind_eq_some_iff.mp h
      rw [List.map_cons, List.nodup_cons] at hnd
      obtain ⟨hlt, h1, h2, h3, h4, token, houts⟩ := append_token_frame hmid
      obtain ⟨i1, i2, i3, i4, happended, hother⟩ := ih hnd.2 hrest
      refine ⟨i1.trans h1, i2.trans h2, i3.trans h3, i4.trans h4, fun e he => ?_,
        fun ref href => ?_⟩
      · cases he with
        | head =>
            refine ⟨hlt, token, ?_⟩
            rw [hother _ hnd.1, houts]
            exact Function.update_self _ _ _
        | tail _ he =>
            obtain ⟨hlt', token', hout⟩ := happended e he
            have hne : e.2.1.output_token_ids ≠ first.2.1.output_token_ids := fun heq =>
              hnd.1 (heq ▸ List.mem_map_of_mem (f := fun e => e.2.1.output_token_ids) he)
            refine ⟨hlt', token', ?_⟩
            rw [hout, houts, Function.update_of_ne hne]
      · rw [List.map_cons, List.mem_cons, not_or] at href
        rw [hother ref href.2, houts]
        exact Function.update_of_ne href.1 _ _

end Runner

namespace SeededRunner

open Runner (SameRequests)

variable {T : Type} [BlockTable T] {κ H LP N : Type} {cfg : RunnerConfig} {sets : SetOrder}
  {mode : OutOfRange} {model : SeededModel κ H LP N} {noise : Noise N} {so : SchedulerOutput}
  {grammar_output : Option GrammarOutput} {rs rs' : Runner T} {k k' : κ} {d d' : Draws}

theorem record_all (sampled : List (Option N)) {l : List (Nat × CachedRequestState × Nat)}
    (hnd : (l.map fun e => e.2.1.output_token_ids).Nodup) (noises : OutRef → List (Option N)) :
    (∀ e ∈ l, l.foldl (record_noise sampled) noises e.2.1.output_token_ids =
      noises e.2.1.output_token_ids ++ [(sampled[e.1]?).join]) ∧
    ∀ ref, ref ∉ l.map (fun e => e.2.1.output_token_ids) →
      l.foldl (record_noise sampled) noises ref = noises ref := by
  induction l generalizing noises with
  | nil => exact ⟨fun _ he => (nomatch he), fun _ _ => rfl⟩
  | cons first l ih =>
      rw [List.map_cons, List.nodup_cons] at hnd
      obtain ⟨hrecorded, hother⟩ := ih hnd.2 (record_noise sampled noises first)
      rw [List.foldl_cons]
      refine ⟨fun e he => ?_, fun ref href => ?_⟩
      · cases he with
        | head =>
            rw [hother _ hnd.1]
            exact Function.update_self _ _ _
        | tail _ he =>
            have hne : e.2.1.output_token_ids ≠ first.2.1.output_token_ids := fun heq =>
              hnd.1 (heq ▸ List.mem_map_of_mem (f := fun e => e.2.1.output_token_ids) he)
            have hsame : record_noise sampled noises first e.2.1.output_token_ids =
                noises e.2.1.output_token_ids := Function.update_of_ne hne _ _
            rw [hrecorded e he, hsame]
      · rw [List.map_cons, List.mem_cons, not_or] at href
        rw [hother ref href.2]
        exact Function.update_of_ne href.1 _ _

theorem execute_chunk_spec {start_index : Nat} {e : SampledExecution LP N}
    (h : execute_chunk cfg mode model noise so grammar_output rs k d start_index =
      some (e, rs', k', d')) :
    ∃ model' : Model κ H LP, Runner.execute_chunk cfg mode model' so grammar_output rs k
        start_index = some (e.execution, rs', k') ∧
      e.q_samples = (d.q_samples noise rs.input_batch.generators).1 ∧
      d' = (d.q_samples noise rs.input_batch.generators).2 := by
  obtain ⟨⟨e₁, rs₁, k₁⟩, hchunk, h⟩ := Option.bind_eq_some_iff.mp h
  cases h
  exact ⟨_, hchunk, rfl, rfl⟩

theorem execute_chunks_frame (fuel : Nat) {start_index : Nat} {es : List (SampledExecution LP N)}
    (h : execute_chunks cfg mode model noise so grammar_output fuel rs k d start_index =
      some (es, rs', k', d')) :
    SameRequests rs rs' ∧ rs'.input_batch.generators = rs.input_batch.generators ∧
      ((∀ i, rs.input_batch.generators.lookup i = none) → d' = d) := by
  induction fuel generalizing rs k d start_index es with
  | zero =>
      unfold execute_chunks at h
      split at h
      · cases h
      · cases h
        exact ⟨.refl _, rfl, fun _ => rfl⟩
  | succ fuel ih =>
      unfold execute_chunks at h
      split at h
      · obtain ⟨⟨e, rs₁, k₁, d₁⟩, h1, h⟩ := Option.bind_eq_some_iff.mp h
        obtain ⟨⟨es', rs₂, k₂, d₂⟩, h2, h⟩ := Option.bind_eq_some_iff.mp h
        cases h
        obtain ⟨model', hchunk, -, hd⟩ := execute_chunk_spec h1
        have hgen := Runner.execute_chunk_generators hchunk
        obtain ⟨hsame, hgen', hdraws⟩ := ih h2
        refine ⟨(Runner.execute_chunk_sameRequests hchunk).trans hsame, hgen'.trans hgen,
          fun hnone => ?_⟩
        rw [hdraws (by rw [hgen]; exact hnone), hd, Draws.q_samples_empty hnone]
      · cases h
        exact ⟨.refl _, rfl, fun _ => rfl⟩

theorem execute_chunks_of_le (fuel : Nat) {start_index : Nat}
    (h : ¬start_index < rs.input_batch.num_reqs) :
    execute_chunks cfg mode model noise so grammar_output fuel rs k d start_index =
      some ([], rs, k, d) := by
  cases fuel with
  | zero => rw [execute_chunks, if_neg h]
  | succ fuel => rw [execute_chunks, if_neg h]

-- One execution of all the rows draws once.
theorem execute_chunks_single (fuel : Nat) {es : List (SampledExecution LP N)}
    (hpos : 0 < rs.input_batch.num_reqs)
    (hle : ∀ counts, Runner.scheduled_counts rs.input_batch so 0 = some counts →
      counts.length ≤ cfg.num_reqs_limit counts)
    (h : execute_chunks cfg mode model noise so grammar_output fuel rs k d 0 =
      some (es, rs', k', d')) :
    ∃ e, es = [⟨e, (d.q_samples noise rs.input_batch.generators).1⟩] ∧
      d' = (d.q_samples noise rs.input_batch.generators).2 := by
  cases fuel with
  | zero =>
      rw [execute_chunks, if_pos hpos] at h
      cases h
  | succ fuel =>
      rw [execute_chunks, if_pos hpos] at h
      obtain ⟨⟨e, rs₁, k₁, d₁⟩, h1, h⟩ := Option.bind_eq_some_iff.mp h
      obtain ⟨⟨es', rs₂, k₂, d₂⟩, h2, h⟩ := Option.bind_eq_some_iff.mp h
      cases h
      obtain ⟨model', hchunk, hq, rfl⟩ := execute_chunk_spec h1
      have hlt := (Runner.execute_chunk_end hchunk).1
      have hend : e.execution.end_index = rs.input_batch.num_reqs :=
        (Runner.InLoop.single (.next .start hchunk) hle).resolve_left (by omega)
      have hnum : rs₁.input_batch.num_reqs = rs.input_batch.num_reqs :=
        congrArg (fun d => d.keys.length) (Runner.execute_chunk_sameRequests hchunk).index
      have hstop : ¬e.execution.end_index < rs₁.input_batch.num_reqs := by omega
      rw [execute_chunks_of_le fuel hstop] at h2
      cases h2
      refine ⟨e.execution, ?_, rfl⟩
      rw [← hq]

-- What has been drawn for each seeded request: one row for each of its output tokens.
structure Drawn (cfg : RunnerConfig) (noise : Noise N) (s : SeededRunner T κ N) : Prop where
  tracked : Runner.Tracked cfg s.runner
  seeded : Runner.Seeded s.runner.requests
  generators : InputBatch.Generators (Runner.generatorOf s.runner.requests) s.runner.input_batch
  drawn : ∀ id st g, s.runner.requests.lookup id = some st → st.generator = some g →
    s.draws.position st.output_token_ids = (s.runner.outs st.output_token_ids).length ∧
    s.noises st.output_token_ids = (List.range (s.runner.outs st.output_token_ids).length).map
      fun k => some (noise.seeded g.seed k)
  fresh : ∀ ref, s.runner.next_ref ≤ ref → s.draws.position ref = 0 ∧ s.noises ref = []

-- A step takes all its requests in one execution, and each of them gets a token, when one of
-- them is seeded.
def Steady (cfg : RunnerConfig) (s : SeededRunner T κ N) : Runner.EngineOp → Prop
  | .execute_model so => Runner.Promised s.runner so
  | .sample_tokens _ => ∀ so, s.runner.scheduler_output = some so → ∀ id st g n,
      s.runner.requests.lookup id = some st → st.generator = some g →
      so.num_scheduled_tokens.lookup id = some n →
      so.Unsplit cfg ∧ st.num_tokens s.runner.outs ≤ st.num_computed_tokens + n

theorem drawn_init (memory : InputBatch T) : Drawn cfg noise (init memory k) where
  tracked := Runner.tracked_init cfg memory
  seeded id st hst := by simp [init, Runner.init] at hst
  generators := .init _ memory
  drawn id st g hst := by simp [init, Runner.init] at hst
  fresh ref _ := ⟨rfl, rfl⟩

-- A new request has a new generator, and the others keep theirs.
theorem drawn_execute_model {s : SeededRunner T κ N} (h : Drawn cfg noise s)
    (hso : Runner.Promised s.runner so) (hr : s.runner.execute_model cfg sets so = some rs') :
    Drawn cfg noise { s with runner := rs' } := by
  have htracked := Runner.tracked_execute_model cfg sets h.tracked hso hr
  unfold Runner.execute_model at hr
  simp only [Option.bind_eq_bind, Option.bind_eq_some_iff, Options.guard_eq_some] at hr
  obtain ⟨-, -, mid, hmid, hr⟩ := hr
  have hu := Runner.update_states_spec cfg sets h.tracked.toConsistent hso.toFits hmid
  obtain ⟨hseeded, hcontinues, hnext, hgen⟩ := Runner.update_states_generators
    h.tracked.toConsistent hso.toFits h.seeded h.generators hmid
  have hknown := h.tracked.known
  have hdrawn : ∀ id st g, mid.requests.lookup id = some st → st.generator = some g →
      s.draws.position st.output_token_ids = (mid.outs st.output_token_ids).length ∧
      s.noises st.output_token_ids = (List.range (mid.outs st.output_token_ids).length).map
        fun k => some (noise.seeded g.seed k) := by
    intro id st g hst hg
    obtain hnew | ⟨st₀, hst₀, hg₀, ho⟩ := hcontinues id st hst
    · obtain ⟨hposition, hnoises⟩ := h.fresh _ hnew
      have hold : ∀ st₀, s.runner.requests.lookup id = some st₀ →
          st.output_token_ids ≠ st₀.output_token_ids := by
        intro st₀ hst₀ heq
        rw [heq] at hnew
        exact absurd (hknown.ref_lt id st₀ hst₀) (Nat.not_lt_of_le hnew)
      have hout : mid.outs st.output_token_ids = [] := by
        by_cases hid : id ∈ so.num_scheduled_tokens
        · rw [AList.mem_keys, ← hso.scheduled.mem_iff, List.mem_append] at hid
          cases hid with
          | inl hid =>
              obtain ⟨d, hd, rfl⟩ := List.mem_map.mp hid
              obtain ⟨st', hst', ⟨ref, sp, -, rfl, hout⟩, -⟩ := hu.new d hd
              obtain rfl := Option.some.inj (hst'.symm.trans hst)
              exact hout
          | inr hid =>
              obtain ⟨d, hd, rfl⟩ := List.mem_map.mp hid
              obtain ⟨st₀, st', hst₀, hcached, hst'⟩ := hu.cached d hd
              obtain rfl := Option.some.inj (hst'.symm.trans hst)
              exact absurd (Runner.cached_state_same hcached).2.2.1 (hold st₀ hst₀)
        · rw [hu.other id hid] at hst
          split at hst
          · cases hst
          · exact absurd rfl (hold st hst)
      rw [hposition, hnoises, hout]
      exact ⟨rfl, rfl⟩
    · rw [ho, hu.outs _ (hknown.ref_lt id st₀ hst₀)]
      exact h.drawn id st₀ g hst₀ (hg₀ ▸ hg)
  split at hr
  · cases hr
    exact ⟨htracked, hseeded, hgen, hdrawn, fun ref href => h.fresh ref (hnext.trans href)⟩
  · cases hr
    exact ⟨htracked, hseeded, ⟨hgen.own, hgen.vacant⟩, hdrawn,
      fun ref href => h.fresh ref (hnext.trans href)⟩

omit [BlockTable T] in
-- What the loop over the rows is given: every row, with the request in it.
theorem seq_lens_spec {seq_lens : List (Nat × CachedRequestState × Nat)}
    (h : (List.range rs.input_batch.num_reqs).mapM (rs.row_seq_len so) = some seq_lens) :
    seq_lens.map Prod.fst = List.range rs.input_batch.num_reqs ∧
      ∀ e, e ∈ seq_lens ↔ e.1 < rs.input_batch.num_reqs ∧ rs.row_seq_len so e.1 = some e := by
  obtain ⟨hlen, hget⟩ := Options.getElem?_of_mapM h
  rw [List.length_range] at hlen
  have hrow : ∀ i e, seq_lens[i]? = some e → i < rs.input_batch.num_reqs ∧
      rs.row_seq_len so i = some e ∧ e.1 = i := by
    intro i e he
    have hi : i < rs.input_batch.num_reqs := by
      rw [← hlen]
      exact (List.getElem?_eq_some_iff.mp he).1
    rw [hget, List.getElem?_range hi, Option.bind_some] at he
    exact ⟨hi, he, (Runner.row_seq_len_eq he).1⟩
  constructor
  · refine List.ext_getElem (by simp [hlen]) fun i h1 h2 => ?_
    rw [List.length_map] at h1
    rw [List.getElem_map, List.getElem_range]
    exact (hrow i _ (List.getElem?_eq_getElem h1)).2.2
  · intro e
    constructor
    · intro he
      obtain ⟨i, hi⟩ := List.getElem?_of_mem he
      obtain ⟨hlt, hsome, rfl⟩ := hrow i e hi
      exact ⟨hlt, hsome⟩
    · intro ⟨hlt, hsome⟩
      refine List.mem_of_getElem? (i := e.1) ?_
      rw [hget, List.getElem?_range hlt, Option.bind_some]
      exact hsome

-- The rows of a step have different output lists.
theorem sampling_refs_nodup (ht : Runner.Tracked cfg rs)
    {seq_lens : List (Nat × CachedRequestState × Nat)}
    (h : (List.range rs.input_batch.num_reqs).mapM (rs.row_seq_len so) = some seq_lens)
    (p : Nat × CachedRequestState × Nat → Bool) :
    ((seq_lens.filter p).map fun e => e.2.1.output_token_ids).Nodup := by
  obtain ⟨hfst, hmem⟩ := seq_lens_spec h
  have hnd : seq_lens.Nodup := by
    refine List.Nodup.of_map Prod.fst ?_
    rw [hfst]
    exact List.nodup_range
  refine List.Nodup.map_on (fun e he e' he' heq => ?_) (hnd.filter p)
  have hrow := ((hmem e).mp (List.mem_filter.mp he).1).2
  have hrow' := ((hmem e').mp (List.mem_filter.mp he').1).2
  obtain ⟨-, id, n, hid, hst, -⟩ := Runner.row_seq_len_eq hrow
  obtain ⟨-, id', n', hid', hst', -⟩ := Runner.row_seq_len_eq hrow'
  obtain rfl := ht.known.ref_inj _ _ _ _ hst hst' heq
  have hi := (ht.full.indexed.inverse id e.1).mpr hid
  have hi' := (ht.full.indexed.inverse id e'.1).mpr hid'
  rw [Option.some.inj (hi.symm.trans hi'), hrow'] at hrow
  exact (Option.some.inj hrow).symm

-- The request of a row that has a generator.
theorem Drawn.row_request {s : SeededRunner T κ N} (h : Drawn cfg noise s) {i : Nat}
    {g : Generator} (hg : s.runner.input_batch.generators.lookup i = some g) :
    ∃ id st, s.runner.input_batch.req_id_to_index.lookup id = some i ∧
      s.runner.requests.lookup id = some st ∧ st.generator = some g ∧
      g.ref = st.output_token_ids := by
  obtain ⟨id, hid⟩ : ∃ id, s.runner.input_batch.req_id_to_index.lookup id = some i := by
    by_contra hnone
    rw [h.generators.vacant i fun id hid => hnone ⟨id, hid⟩] at hg
    cases hg
  have hown := (h.generators.own id i hid).symm.trans hg
  obtain ⟨st, hst, hgen⟩ := Option.bind_eq_some_iff.mp hown
  exact ⟨id, st, hid, hst, hgen, (h.seeded id st hst).2 g hgen⟩

theorem Drawn.generators_inj {s : SeededRunner T κ N} (h : Drawn cfg noise s) {i i' : Nat}
    {g g' : Generator} (hg : s.runner.input_batch.generators.lookup i = some g)
    (hg' : s.runner.input_batch.generators.lookup i' = some g') (href : g.ref = g'.ref) :
    i = i' := by
  obtain ⟨id, st, hid, hst, -, hout⟩ := h.row_request hg
  obtain ⟨id', st', hid', hst', -, hout'⟩ := h.row_request hg'
  obtain rfl := h.tracked.known.ref_inj id id' st st' hst hst' (hout.symm.trans (href.trans hout'))
  exact Option.some.inj (hid.symm.trans hid')

-- The draws of a step: none without seeded requests, and one execution otherwise.
theorem Drawn.step_draws {s : SeededRunner T κ N} (h : Drawn cfg noise s)
    (hso : s.runner.scheduler_output = some so)
    (hsteady : ∀ id st g n, s.runner.requests.lookup id = some st → st.generator = some g →
      so.num_scheduled_tokens.lookup id = some n → so.Unsplit cfg) {fuel : Nat}
    {es : List (SampledExecution LP N)} (hpos : 0 < s.runner.input_batch.num_reqs)
    (hr : execute_chunks cfg mode model noise so grammar_output fuel
      { s.runner with scheduler_output := none } k s.draws 0 = some (es, rs', k', d')) :
    ((∀ i, s.runner.input_batch.generators.lookup i = none) ∧ d' = s.draws) ∨
      ∃ e, es = [⟨e, (s.draws.q_samples noise s.runner.input_batch.generators).1⟩] ∧
        d' = (s.draws.q_samples noise s.runner.input_batch.generators).2 := by
  by_cases hnone : ∀ i, s.runner.input_batch.generators.lookup i = none
  · exact .inl ⟨hnone, (execute_chunks_frame _ hr).2.2 hnone⟩
  · right
    push Not at hnone
    obtain ⟨i, hi⟩ := hnone
    obtain ⟨g, hg⟩ := Option.ne_none_iff_exists'.mp hi
    obtain ⟨id, st, hid, hst, hgen, -⟩ := h.row_request hg
    obtain ⟨n, hn⟩ := (Dict.mem_iff _ _).mp
      (((h.tracked.pending so hso).1 id).mp ((Dict.mem_iff _ _).mpr ⟨i, hid⟩))
    have hpending : Runner.Pending { s.runner with scheduler_output := none } so :=
      ⟨h.tracked.full, (h.tracked.pending so hso).1⟩
    have hsingle := execute_chunks_single fuel (by exact hpos)
      (by exact hpending.unsplit (hsteady id st g n hst hgen hn)) hr
    exact hsingle

theorem drawn_sample_scheduled {s s' : SeededRunner T κ N} (h : Drawn cfg noise s)
    (hso : s.runner.scheduler_output = some so)
    (hsteady : ∀ id st g n, s.runner.requests.lookup id = some st → st.generator = some g →
      so.num_scheduled_tokens.lookup id = some n →
      so.Unsplit cfg ∧ st.num_tokens s.runner.outs ≤ st.num_computed_tokens + n)
    (hr : sample_scheduled cfg mode model noise grammar_output s so = some s') :
    Drawn cfg noise s' := by
  unfold sample_scheduled at hr
  simp only [Option.bind_eq_bind, Option.bind_eq_some_iff, Options.guard_eq_some] at hr
  obtain ⟨-, hpos, ⟨es, rs₁, k₁, d₁⟩, hchunks, seq_lens, hseq, ⟨valid, rs₂⟩, happend, hr⟩ := hr
  cases hr
  obtain ⟨hsame, hgenerators, -⟩ := execute_chunks_frame _ hchunks
  have hdraws := h.step_draws hso
    (fun id st g n hst hg hn => (hsteady id st g n hst hg hn).1) hpos hchunks
  have hidle := hsame.tracked h.tracked.idle
  have htracked : Runner.Tracked cfg rs₂ := by
    refine (Runner.append_tokens_spec hidle hsame.scheduler_output ?_ happend).1
    rw [hsame.requests, hsame.outs]
    exact (h.tracked.pending so hso).2
  -- the loops over the sampling rows
  unfold Runner.append_tokens at happend
  simp only [Option.bind_eq_bind, Option.bind_eq_some_iff] at happend
  obtain ⟨seq_lens', hseq', valid', hvalid, last, hlast, happend⟩ := happend
  obtain rfl := Option.some.inj (hseq'.symm.trans hseq)
  cases happend
  have hnd := sampling_refs_nodup hidle hseq fun e => decide (e.2.1.num_tokens rs₁.outs ≤ e.2.2)
  obtain ⟨hrequests, hnext, hindex, hgen, hout, hout'⟩ := Runner.append_all_frame hnd hlast
  obtain ⟨hnoise, hnoise'⟩ := record_all (es.flatMap SampledExecution.noise) hnd s.noises
  obtain ⟨-, hmem⟩ := seq_lens_spec hseq
  have hlength := (Runner.discard_all_spec _ hvalid).1
  have hreq : rs₂.requests = s.runner.requests := hrequests.trans hsame.requests
  have hinj : ∀ i i' g g', s.runner.input_batch.generators.lookup i = some g →
      s.runner.input_batch.generators.lookup i' = some g' → g.ref = g'.ref → i = i' :=
    fun i i' g g' hg hg' href => h.generators_inj hg hg' href
  obtain ⟨hdrawn, hundrawn⟩ := Draws.q_samples_spec noise (d := s.draws) hinj
  refine ⟨htracked, ?_, ?_, ?_, ?_⟩
  · dsimp only
    rw [hreq]
    exact h.seeded
  · dsimp only
    rw [hreq]
    exact h.generators.of_eq (hindex.trans hsame.index) (hgen.trans hgenerators)
  · intro id st g hst hg
    dsimp only at hst ⊢
    rw [hreq] at hst
    obtain ⟨hposition, hnoises⟩ := h.drawn id st g hst hg
    have href := (h.seeded id st hst).2 g hg
    cases hi : s.runner.input_batch.req_id_to_index.lookup id with
    | none =>
        -- the request is in no row, so nothing is drawn or appended for it
        have hposition' : d₁.position st.output_token_ids = s.draws.position st.output_token_ids := by
          obtain ⟨-, rfl⟩ | ⟨e, -, rfl⟩ := hdraws
          · rfl
          · refine hundrawn _ fun i g' hg' heq => ?_
            obtain ⟨id', st', hid', hst', -, hout'⟩ := h.row_request hg'
            obtain rfl := h.tracked.known.ref_inj id' id st' st hst' hst (hout'.symm.trans heq)
            rw [hi] at hid'
            cases hid'
        have hother : st.output_token_ids ∉ (seq_lens'.filter fun e =>
            decide (e.2.1.num_tokens rs₁.outs ≤ e.2.2)).map fun e => e.2.1.output_token_ids := by
          intro hmem'
          obtain ⟨e, he, heq⟩ := List.mem_map.mp hmem'
          have hrow := ((hmem e).mp (List.mem_filter.mp he).1).2
          obtain ⟨-, id', n, hid', hst', -⟩ := Runner.row_seq_len_eq hrow
          rw [hsame.requests] at hst'
          obtain rfl := h.tracked.known.ref_inj id' id e.2.1 st hst' hst heq
          have hindex' := (hidle.full.indexed.inverse id' e.1).mpr hid'
          rw [hsame.index, hi] at hindex'
          cases hindex'
        rw [hposition', hnoise' _ hother, hout' _ hother, hsame.outs]
        exact ⟨hposition, hnoises⟩
    | some i =>
        have hrow : s.runner.input_batch.generators.lookup i = some g :=
          (h.generators.own id i hi).trans ((Runner.generatorOf_of_lookup hst).trans hg)
        obtain ⟨q, hq, hqi, hnext'⟩ := hdrawn i g hrow
        obtain ⟨hnone, -⟩ | ⟨e, rfl, rfl⟩ := hdraws
        · rw [hnone i] at hrow
          cases hrow
        · obtain ⟨n, hn⟩ := (Dict.mem_iff _ _).mp
            (((h.tracked.pending so hso).1 id).mp ((Dict.mem_iff _ _).mpr ⟨i, hi⟩))
          have hle := (hsteady id st g n hst hg hn).2
          have hi₁ : rs₁.input_batch.req_id_to_index.lookup id = some i := by
            rw [hsame.index]
            exact hi
          have hseq : rs₁.row_seq_len so i = some (i, st, st.num_computed_tokens + n) := by
            unfold Runner.row_seq_len
            rw [(hidle.full.indexed.inverse id i).mp hi₁, hsame.requests]
            simp only [Option.join_some, Option.bind_eq_bind, Option.bind_some, hst, hn]
            rfl
          have hsampling : (i, st, st.num_computed_tokens + n) ∈ seq_lens'.filter fun e =>
              decide (e.2.1.num_tokens rs₁.outs ≤ e.2.2) := by
            refine List.mem_filter.mpr ⟨(hmem _).mpr ⟨hidle.full.lt_num_reqs hi₁, hseq⟩, ?_⟩
            rw [hsame.outs]
            exact decide_eq_true hle
          obtain ⟨hlt, token, htoken⟩ := hout _ hsampling
          have hnoise := hnoise _ hsampling
          dsimp only at hlt htoken hnoise
          rw [hsame.outs] at htoken
          simp only [List.flatMap_cons, List.flatMap_nil, List.append_nil] at hlength hnoise ⊢
          rw [hlength, List.length_map] at hlt
          have hsampled : ((SampledExecution.noise (⟨e, (s.draws.q_samples noise
              s.runner.input_batch.generators).1⟩ : SampledExecution LP N))[i]?).join =
                some (noise.seeded g.seed (s.draws.position g.ref)) := by
            unfold SampledExecution.noise
            rw [List.getElem?_map, List.getElem?_range hlt, hq, ← hqi]
            rfl
          rw [hnoise, htoken, hsampled, ← href, hnext', href, hposition, hnoises,
            List.length_append, List.length_singleton, List.range_succ, List.map_append]
          exact ⟨rfl, rfl⟩
  · intro ref href
    dsimp only at href ⊢
    rw [hnext, hsame.next_ref] at href
    obtain ⟨hposition, hnoises⟩ := h.fresh ref href
    have hold : ∀ id st, s.runner.requests.lookup id = some st → st.output_token_ids ≠ ref :=
      fun id st hst heq =>
        absurd (h.tracked.known.ref_lt id st hst) (Nat.not_lt_of_le (heq ▸ href))
    have hother : ref ∉ (seq_lens'.filter fun e =>
        decide (e.2.1.num_tokens rs₁.outs ≤ e.2.2)).map fun e => e.2.1.output_token_ids := by
      intro hmem'
      obtain ⟨e, he, heq⟩ := List.mem_map.mp hmem'
      obtain ⟨-, id', n, -, hst', -⟩ :=
        Runner.row_seq_len_eq ((hmem e).mp (List.mem_filter.mp he).1).2
      rw [hsame.requests] at hst'
      exact hold id' e.2.1 hst' heq
    rw [hnoise' _ hother]
    refine ⟨?_, hnoises⟩
    obtain ⟨-, rfl⟩ | ⟨e, -, rfl⟩ := hdraws
    · exact hposition
    · rw [hundrawn ref fun i g' hg' heq => ?_]
      · exact hposition
      · obtain ⟨id', st', -, hst', -, hout'⟩ := h.row_request hg'
        exact hold id' st' hst' (hout'.symm.trans heq)

theorem drawn_step (s : SeededRunner T κ N) (op : Runner.EngineOp) (s' : SeededRunner T κ N)
    (h : Drawn cfg noise s) (hop : Steady cfg s op)
    (hr : step cfg sets mode model noise s op = some s') : Drawn cfg noise s' := by
  cases op with
  | execute_model so =>
      obtain ⟨rs, hrs, hr⟩ := Option.bind_eq_some_iff.mp hr
      cases hr
      exact drawn_execute_model h hop hrs
  | sample_tokens grammar_output =>
      unfold step at hr
      dsimp only at hr
      cases hso : s.runner.scheduler_output with
      | none =>
          rw [hso] at hr
          cases hr
          exact h
      | some so =>
          rw [hso] at hr
          exact drawn_sample_scheduled h hso (hop so hso) hr

theorem drawn_reachable {memory : InputBatch T} {s : SeededRunner T κ N}
    (h : Run.Reachable (step cfg sets mode model noise) (Steady cfg) (init memory k) s) :
    Drawn cfg noise s :=
  h.invariant (Drawn cfg noise) (drawn_init memory) drawn_step

theorem Drawn.noise_row {s : SeededRunner T κ N} (h : Drawn cfg noise s) {id : ReqId}
    {st : CachedRequestState} {g : Generator} (hst : s.runner.requests.lookup id = some st)
    (hg : st.generator = some g) {i : Nat} (hi : i < (s.runner.outs st.output_token_ids).length) :
    (s.noises st.output_token_ids)[i]? = some (some (noise.seeded g.seed i)) := by
  rw [(h.drawn id st g hst hg).2, List.getElem?_map, List.getElem?_range hi]
  rfl

section Determined

variable {T' : Type} [BlockTable T'] {κ' H' LP' : Type} {cfg' : RunnerConfig} {sets' : SetOrder}
  {mode' : OutOfRange} {model' : SeededModel κ' H' LP' N} {k₀ : κ'}

-- In steady runs the noise of an output token depends on the seed of its request and on its
-- index, and not on the other requests, the rows or the steps.
theorem noise_of_seed {memory : InputBatch T} {memory' : InputBatch T'}
    {s : SeededRunner T κ N} {s' : SeededRunner T' κ' N}
    (h : Run.Reachable (step cfg sets mode model noise) (Steady cfg) (init memory k) s)
    (h' : Run.Reachable (step cfg' sets' mode' model' noise) (Steady cfg') (init memory' k₀) s')
    {id id' : ReqId} {st st' : CachedRequestState} {g g' : Generator}
    (hst : s.runner.requests.lookup id = some st)
    (hst' : s'.runner.requests.lookup id' = some st') (hg : st.generator = some g)
    (hg' : st'.generator = some g') (hseed : g.seed = g'.seed) {i : Nat}
    (hi : i < (s.runner.outs st.output_token_ids).length)
    (hi' : i < (s'.runner.outs st'.output_token_ids).length) :
    (s.noises st.output_token_ids)[i]? = some (some (noise.seeded g.seed i)) ∧
      (s'.noises st'.output_token_ids)[i]? = (s.noises st.output_token_ids)[i]? := by
  have hrow := (drawn_reachable h).noise_row hst hg hi
  have hrow' := (drawn_reachable h').noise_row hst' hg' hi'
  refine ⟨hrow, ?_⟩
  rw [hrow, hrow', hseed]

end Determined

section Example

open Runner (oneGroup greedy newReq prefill twoRows)

-- The rows are known by the seed and the draw.
def seed_and_draw : Noise (Int × Nat) where
  seeded seed k := (seed, k)
  global fill row := (fill, row)

def constant_sampler : SeededModel Unit Unit Unit (Int × Nat) where
  forward := fun k _ => some (k, fun _ _ => ())
  sample := fun picked _ _ _ => picked.map fun _ => 1
  gather_logprobs := fun picked _ => picked

abbrev exampleStep := step (T := DenseTable) twoRows .asListed .raise constant_sampler seed_and_draw

def seededReq : NewRequestData :=
  { newReq "A" [7, 8] [1] with
    sampling_params := some { greedy with sampling_type := .RANDOM_SEED, seed := 5 } }

-- What the scheduler promises, for any call of the sampler.
def Allowed (s : SeededRunner T κ N) : Runner.EngineOp → Prop
  | .execute_model so => Runner.Promised s.runner so
  | .sample_tokens _ => True

instance (s : SeededRunner T κ N) (op : Runner.EngineOp) : Decidable (Allowed s op) :=
  match op with
  | .execute_model so => inferInstanceAs (Decidable (Runner.Promised s.runner so))
  | .sample_tokens _ => inferInstanceAs (Decidable True)

instance (s : SeededRunner T κ N) (op : Runner.EngineOp) : Decidable (Steady cfg s op) :=
  match op with
  | .execute_model so => inferInstanceAs (Decidable (Runner.Promised s.runner so))
  | .sample_tokens _ =>
      decidable_of_iff (∀ so ∈ s.runner.scheduler_output,
          ∀ e ∈ so.num_scheduled_tokens.entries, ∀ st ∈ s.runner.requests.lookup e.1,
            ∀ _g ∈ st.generator, so.counts.length ≤ cfg.num_reqs_limit so.counts ∧
              st.num_tokens s.runner.outs ≤ st.num_computed_tokens + e.2)
        ⟨fun h so hso id st g n hst hg hn =>
            h so hso ⟨id, n⟩ (AList.mem_lookup_iff.mp hn) st hst g hg,
          fun h so hso e he st hst g hg =>
            h so hso e.1 st g e.2 hst hg (AList.mem_lookup_iff.mpr he)⟩

-- The prompt in one step, beside another request, and in two steps.
def wholePrompt : List Runner.EngineOp :=
  [.execute_model (prefill [seededReq] []), .sample_tokens none]

def besideOther : List Runner.EngineOp :=
  [.execute_model (prefill [newReq "B" [9] [2], seededReq] []), .sample_tokens none]

def inTwoSteps : List Runner.EngineOp :=
  [.execute_model { prefill [seededReq] [] with
      num_scheduled_tokens := [⟨"A", 1⟩].toAList, total_num_scheduled_tokens := 1 },
    .sample_tokens none,
    .execute_model { prefill [] [] with
      scheduled_cached_reqs := [⟨"A", none, 1⟩]
      num_scheduled_tokens := [⟨"A", 1⟩].toAList, total_num_scheduled_tokens := 1 },
    .sample_tokens none]

def afterWhole : SeededRunner DenseTable Unit (Int × Nat) :=
  (Run.exec exampleStep (Steady twoRows) (init oneGroup ()) wholePrompt).get (by decide)

def afterBeside : SeededRunner DenseTable Unit (Int × Nat) :=
  (Run.exec exampleStep (Steady twoRows) (init oneGroup ()) besideOther).get (by decide)

def afterTwoSteps : SeededRunner DenseTable Unit (Int × Nat) :=
  (Run.exec exampleStep Allowed (init oneGroup ()) inTwoSteps).get (by decide)

theorem afterWhole_reachable :
    Run.Reachable exampleStep (Steady twoRows) (init oneGroup ()) afterWhole :=
  .of_exec wholePrompt .start (Option.some_get _).symm

theorem afterBeside_reachable :
    Run.Reachable exampleStep (Steady twoRows) (init oneGroup ()) afterBeside :=
  .of_exec besideOther .start (Option.some_get _).symm

omit [BlockTable T] in
theorem Steady.allowed (s : SeededRunner T κ N) (op : Runner.EngineOp) (h : Steady cfg s op) :
    Allowed s op := by
  cases op with
  | execute_model so => exact h
  | sample_tokens grammar_output => trivial

-- Beside request B, request A is given the row of its own seed.
theorem afterBeside_noise :
    ∃ st st', afterWhole.runner.requests.lookup "A" = some st ∧
      afterBeside.runner.requests.lookup "A" = some st' ∧
      (afterWhole.noises st.output_token_ids)[0]? = some (some (5, 0)) ∧
      (afterBeside.noises st'.output_token_ids)[0]? =
        (afterWhole.noises st.output_token_ids)[0]? := by
  refine ⟨(afterWhole.runner.requests.lookup "A").get (by decide),
    (afterBeside.runner.requests.lookup "A").get (by decide),
    (Option.some_get _).symm, (Option.some_get _).symm, ?_⟩
  exact noise_of_seed afterWhole_reachable afterBeside_reachable (Option.some_get _).symm
    (Option.some_get _).symm (by decide : _ = some (⟨0, 5⟩ : Generator)) (by decide : _ = some (⟨1, 5⟩ : Generator)) rfl
    (by decide) (by decide)

-- The step that only starts the prompt draws too, so the first token takes the second row.
theorem partial_prompt_draws :
    Run.Reachable exampleStep Allowed (init oneGroup ()) afterWhole ∧
    Run.Reachable exampleStep Allowed (init oneGroup ()) afterTwoSteps ∧
    ∃ st st' g, afterWhole.runner.requests.lookup "A" = some st ∧
      afterTwoSteps.runner.requests.lookup "A" = some st' ∧
      st.generator = some g ∧ st'.generator = some g ∧
      st.prompt_token_ids = st'.prompt_token_ids ∧
      (afterWhole.noises st.output_token_ids)[0]? = some (some (5, 0)) ∧
      (afterTwoSteps.noises st'.output_token_ids)[0]? = some (some (5, 1)) := by
  refine ⟨afterWhole_reachable.mono Steady.allowed,
    .of_exec inTwoSteps .start (Option.some_get _).symm,
    (afterWhole.runner.requests.lookup "A").get (by decide),
    (afterTwoSteps.runner.requests.lookup "A").get (by decide), ⟨0, 5⟩,
    (Option.some_get _).symm, (Option.some_get _).symm, by decide, by decide, by decide,
    by decide, by decide⟩

end Example

end SeededRunner

end TTXla.VllmTT
