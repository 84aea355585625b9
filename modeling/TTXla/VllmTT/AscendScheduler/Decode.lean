import TTXla.VllmTT.AscendScheduler.Prefill

-- The decode loop of `schedule`.
namespace TTXla.VllmTT.AscendScheduler

open Excepts (ensure bind_eq_ok bind_eq_error ensure_eq_ok get_eq_ok)

variable {K LP : Type} {cfg : Config} {base : Base K LP}

-- What holds at the head of the loop, when the call started in the state `s`: `running` loses
-- requests at its end only, and the scheduled ones stand before `req_index`.
structure Decoding (cfg : Config) (s : Scheduler K) (req_index : Nat) (p : Pass K) : Prop where
  queued : Consistent p.self
  requests : p.self.requests = s.requests
  mode : p.self.forced_mode = s.forced_mode
  new_reqs : p.scheduled_new_reqs = []
  resumed_reqs : p.scheduled_resumed_reqs = []
  running : ∃ l, s.running = p.self.running ++ l
  scheduled : ∀ id, id ∈ p.self.scheduled_req_ids ↔ id ∈ p.num_scheduled_tokens
  processed : ∀ id ∈ p.num_scheduled_tokens, ∃ j < req_index, p.self.running[j]? = some id
  lists : p.scheduled_running_reqs.Perm p.num_scheduled_tokens.keys
  budget : p.token_budget + (p.num_scheduled_tokens.entries.map Sigma.snd).sum =
    cfg.max_num_scheduled_tokens ∧ 0 ≤ p.token_budget
  counts : ∀ id n, p.num_scheduled_tokens.lookup id = some n → n ≠ 0 ∧
    (s.objs id).num_tokens = (s.objs id).num_computed_tokens + 1 ∧
    ((s.objs id).spec_token_ids = [] → (s.objs id).num_tokens < cfg.max_model_len → n = 1)
  num_tokens : ∀ id, (p.self.objs id).num_tokens = (s.objs id).num_tokens
  spec : ∀ id, (s.objs id).spec_token_ids = [] → (p.self.objs id).spec_token_ids = []
  no_spec : ∀ id, (s.objs id).spec_token_ids = [] →
    p.scheduled_spec_decode_tokens.lookup id = none
  unscheduled : ∀ id, id ∉ p.num_scheduled_tokens →
    (p.self.objs id).spec_token_ids = (s.objs id).spec_token_ids
  computed : ∀ id ∈ p.self.running,
    (p.self.objs id).num_computed_tokens = (s.objs id).num_computed_tokens
  fate : ∀ id, ¬(s.objs id).status.is_finished → ¬(p.self.objs id).status.is_finished ∨
    (p.self.objs id).status = .FINISHED_IGNORED

-- The loop starts when the prefill loop has scheduled nothing.
theorem decoding_start {s : Scheduler K} {w : List ReqId} {p : Pass K}
    (h : Prefilling cfg s w p) (hc : Consistent p.self) (hidle : p.self.scheduled_req_ids = ∅) :
    Decoding cfg s 0 p := by
  have hempty : ∀ id, id ∉ p.num_scheduled_tokens := by
    intro id hid
    have := (h.scheduled id).mpr (Or.inr hid)
    rw [hidle] at this
    simp at this
  have hkeys : p.num_scheduled_tokens.keys = [] :=
    List.eq_nil_iff_forall_not_mem.mpr fun id hid => hempty id (AList.mem_keys.mpr hid)
  obtain ⟨l, hl, hlists, hperm⟩ := h.running
  rw [hkeys] at hperm
  obtain rfl := hperm.eq_nil
  have hnil := List.append_eq_nil_iff.mp hlists.symm.eq_nil
  have hlookup : ∀ id n, p.num_scheduled_tokens.lookup id ≠ some n := fun id n hn =>
    hempty id ((Dict.mem_iff _ _).mpr ⟨n, hn⟩)
  refine ⟨hc, h.requests, h.mode, hnil.1, hnil.2, ⟨[], by rw [hl]; simp⟩, fun id => ?_,
    fun id hid => absurd hid (hempty id), ?_, h.budget, fun id n hn => absurd hn (hlookup id n),
    fun id => (h.tokens id).num_tokens, fun id hs => by rw [(h.tokens id).spec, hs],
    fun id _ => by rw [h.spec, AList.lookup_empty],
    fun id _ => (h.tokens id).spec, fun id hid => ?_, h.fate⟩
  · rw [hidle]
    exact iff_of_false (by simp) (hempty id)
  · rw [h.running_reqs, hkeys]
  · rw [hl, List.append_nil] at hid
    rw [h.others id hid]

namespace Decoding

variable {s : Scheduler K} {i : Nat} {p p' : Pass K} {id : ReqId}

theorem next (h : Decoding cfg s i p) : Decoding cfg s (i + 1) p := by
  refine { h with processed := fun id hid => ?_ }
  obtain ⟨j, hj, hr⟩ := h.processed id hid
  exact ⟨j, by omega, hr⟩

theorem setKv (h : Decoding cfg s i p) (kv : K) :
    Decoding cfg s i { p with self := { p.self with kv := kv } } :=
  { h with queued := h.queued.congr rfl rfl (fun _ => rfl) (.refl _) }

-- A scheduled request is never preempted: it stands before the last one.
theorem preempt (base : Base K LP) (h : Decoding cfg s i p) (hi : i < p.self.running.length)
    (hlast : p.self.running.getLast? = some id) :
    Decoding cfg s i (p.preempt base p.self.running.dropLast id) := by
  have hsplit := List.dropLast_append_getLast? id hlast
  have hnodup := h.queued.nodup
  have hmem : id ∈ p.self.running := List.mem_of_getLast? hlast
  have hnotin : id ∉ p.self.running.dropLast := by
    intro hm
    rw [← hsplit, ← List.append_assoc] at hnodup
    exact (List.nodup_append.mp hnodup).2.2 id (List.mem_append_right _ hm) id (by simp) rfl
  have hkept : ∀ j < i, p.self.running.dropLast[j]? = p.self.running[j]? := by
    intro j hj
    rw [List.getElem?_dropLast, if_pos (by omega)]
  have hother : ∀ id', id' ≠ id → (p.preempt base p.self.running.dropLast id).self.objs id' =
      p.self.objs id' := fun id' hne => Function.update_of_ne hne _ _
  have hself : (p.preempt base p.self.running.dropLast id).self.objs id =
      { p.self.objs id with status := .PREEMPTED, num_computed_tokens := 0 } :=
    Function.update_self ..
  have hnum : ∀ id', ((p.preempt base p.self.running.dropLast id).self.objs id').num_tokens =
      (p.self.objs id').num_tokens ∧
      ((p.preempt base p.self.running.dropLast id).self.objs id').spec_token_ids =
        (p.self.objs id').spec_token_ids := by
    intro id'
    by_cases he : id' = id
    · subst he
      rw [hself]
      exact ⟨rfl, rfl⟩
    · rw [hother id' he]
      exact ⟨rfl, rfl⟩
  obtain ⟨l, hl⟩ := h.running
  refine ⟨?_, h.requests, h.mode, h.new_reqs, h.resumed_reqs, ⟨id :: l, ?_⟩, h.scheduled,
    fun id' hid' => ?_, h.lists, h.budget, h.counts, fun id' => ?_, fun id' hs => ?_, h.no_spec,
    fun id' hid' => ?_, fun id' hid' => ?_, fun id' hf => ?_⟩
  · refine h.queued.move (List.mem_append_right _ hmem) ?_ rfl (fun id' hne => ?_)
      (fun id' hid' => ?_) (fun id' hid' => Or.inr (List.mem_of_mem_dropLast hid'))
      (fun _ => ?_) (fun hr => absurd hr hnotin)
    · change (id :: p.self.waiting ++ p.self.running.dropLast).Perm _
      conv_rhs => rw [← hsplit]
      rw [← List.append_assoc]
      exact (List.perm_append_singleton _ _).symm
    · rw [hother id' hne]
    · rcases List.mem_cons.mp hid' with he | hw
      · exact Or.inl he
      · exact Or.inr hw
    · rw [hself]
      rfl
  · rw [hl]
    change _ = p.self.running.dropLast ++ id :: l
    conv_lhs => rw [← hsplit]
    rw [List.append_assoc, List.singleton_append]
  · obtain ⟨j, hj, hr⟩ := h.processed id' hid'
    exact ⟨j, hj, (hkept j hj).trans hr⟩
  · rw [(hnum id').1]
    exact h.num_tokens id'
  · rw [(hnum id').2]
    exact h.spec id' hs
  · rw [(hnum id').2]
    exact h.unscheduled id' hid'
  · have hne : id' ≠ id := by
      rintro rfl
      exact hnotin hid'
    rw [hother id' hne]
    exact h.computed id' (List.mem_of_mem_dropLast hid')
  · by_cases he : id' = id
    · subst he
      rw [hself]
      exact Or.inl nofun
    · rw [hother id' he]
      exact h.fate id' hf

-- The inner loop may preempt other requests; it fails when it has preempted the request itself.
theorem allocate {fuel : Nat} {n : Int} {r : Option KVCacheBlocks} (h : Decoding cfg s i p)
    (hid : p.self.running[i]? = some id)
    (hr : allocate_or_preempt cfg base fuel p id n = .ok (p', r)) :
    Decoding cfg s i p' ∧ p'.token_budget = p.token_budget ∧
      p'.num_scheduled_tokens = p.num_scheduled_tokens ∧
      ∀ blocks, r = some blocks → p'.self.running[i]? = some id := by
  induction fuel generalizing p with
  | zero => cases hr
  | succ fuel ih =>
      unfold allocate_or_preempt at hr
      dsimp only at hr
      split at hr
      · cases hr
        exact ⟨h.setKv _, rfl, rfl, fun _ _ => hid⟩
      · obtain ⟨victim, hlast, hr⟩ := bind_eq_ok.mp hr
        have hlast := get_eq_ok.mp hlast
        obtain ⟨hi, -⟩ := List.getElem?_eq_some_iff.mp hid
        have hpre := (h.setKv (base.allocate_slots p.self.kv id (p.self.objs id) n 0 none
          cfg.num_lookahead_tokens false).1).preempt base hi hlast
        split at hr
        · cases hr
          exact ⟨hpre, rfl, rfl, nofun⟩
        · rename_i hne
          have hlen : i ≠ p.self.running.length - 1 := by
            rintro rfl
            rw [List.getLast?_eq_getElem?] at hlast
            exact hne (Option.some.inj (hlast.symm.trans hid))
          have hkept : p.self.running.dropLast[i]? = some id := by
            rw [List.getElem?_dropLast, if_pos (by omega), hid]
          obtain ⟨i1, i2, i3, i4⟩ := ih hpre hkept hr
          exact ⟨i1, i2, i3, i4⟩

-- It ends without an exception, since the request is in `running`.
theorem allocate_or_preempt_ne_error {fuel : Nat} {n : Int} {e : SchedulerError}
    (hfuel : p.self.running.length ≤ fuel) (hid : id ∈ p.self.running) :
    allocate_or_preempt cfg base fuel p id n ≠ .error e := by
  induction fuel generalizing p with
  | zero =>
      have := List.length_pos_of_mem hid
      omega
  | succ fuel ih =>
      intro he
      unfold allocate_or_preempt at he
      dsimp only at he
      split at he
      · cases he
      · rcases bind_eq_error.mp he with he | ⟨victim, hlast, he⟩
        · have hnone := (Excepts.get_eq_error.mp he).1
          rw [List.getLast?_eq_none_iff] at hnone
          rw [hnone] at hid
          cases hid
        · have hlast := get_eq_ok.mp hlast
          split at he
          · cases he
          · rename_i hne
            have hsplit := List.dropLast_append_getLast? victim hlast
            refine ih ?_ ?_ he
            · change p.self.running.dropLast.length ≤ fuel
              rw [List.length_dropLast]
              omega
            · change id ∈ p.self.running.dropLast
              rw [← hsplit] at hid
              rcases List.mem_append.mp hid with hm | hm
              · exact hm
              · exact absurd (List.mem_singleton.mp hm).symm hne

theorem decode_tokens_spec {request : Request} {n : Int}
    (h : decode_tokens cfg p request = .ok n) (hpos : 0 < p.token_budget) :
    request.num_tokens = request.num_computed_tokens + 1 ∧ n ≤ p.token_budget ∧
      (n ≠ 0 → request.spec_token_ids = [] → request.num_tokens < cfg.max_model_len → n = 1) := by
  obtain ⟨u, hone, h⟩ := bind_eq_ok.mp h
  have hone := ensure_eq_ok.mp hone
  cases h
  refine ⟨by omega, ?_, fun hne hspec hlt => ?_⟩
  · split <;> omega
  · split at hne
    · exact absurd rfl hne
    · rename_i hloras
      rw [if_neg hloras, Request.num_tokens_with_spec, hspec]
      simp only [List.length_nil, Nat.add_zero]
      omega

-- Scheduling the request at `req_index`.
theorem record {n : Int} {blocks : KVCacheBlocks} (h : Decoding cfg s i p)
    (hid : p.self.running[i]? = some id) (hnew : id ∉ p.num_scheduled_tokens)
    (hne : n ≠ 0) (hbudget : n ≤ p.token_budget)
    (hone : (s.objs id).num_tokens = (s.objs id).num_computed_tokens + 1)
    (hcount : (s.objs id).spec_token_ids = [] → (s.objs id).num_tokens < cfg.max_model_len → n = 1) :
    Decoding cfg s (i + 1) (p.record cfg id n blocks) := by
  refine ⟨h.queued.congr rfl rfl (fun _ => rfl) (.refl _), h.requests, h.mode, h.new_reqs,
    h.resumed_reqs, h.running, fun id' => ?_, fun id' hid' => ?_, ?_, ⟨?_, ?_⟩,
    fun id' n' hn' => ?_, h.num_tokens, h.spec, h.no_spec, fun id' hid' => ?_, h.computed, h.fate⟩
  · simp only [Pass.record]
    rw [Finset.mem_insert, AList.mem_insert, h.scheduled]
  · rcases (AList.mem_insert _).mp hid' with rfl | hm
    · exact ⟨i, by omega, hid⟩
    · obtain ⟨j, hj, hr⟩ := h.processed id' hm
      exact ⟨j, by omega, hr⟩
  · simp only [Pass.record]
    rw [Dict.keys_insert_of_notMem _ _ _ hnew]
    exact (List.perm_append_singleton _ _).trans (h.lists.cons id)
  · simp only [Pass.record]
    rw [Dict.sum_values_insert _ _ _ hnew]
    have := h.budget.1
    omega
  · simp only [Pass.record]
    omega
  · simp only [Pass.record] at hn'
    rw [Dict.lookup_insert'] at hn'
    by_cases he : id' = id
    · rw [if_pos he] at hn'
      cases hn'
      subst he
      exact ⟨hne, hone, hcount⟩
    · rw [if_neg he] at hn'
      exact h.counts id' n' hn'
  · exact h.unscheduled id' fun hm => hid' ((AList.mem_insert _).mpr (Or.inr hm))

theorem trimSpec (h : Decoding cfg s i p) (hid : id ∈ p.num_scheduled_tokens) (n : Int) :
    Decoding cfg s i (p.trimSpec id n) := by
  unfold Pass.trimSpec
  dsimp only
  split
  · rename_i hspec
    generalize (p.self.objs id).spec_token_ids.take _ = spec
    have hother : ∀ id', id' ≠ id → ∀ r, Function.update p.self.objs id r id' = p.self.objs id' :=
      fun id' hne r => Function.update_of_ne hne _ _
    have hself : ∀ r, Function.update p.self.objs id r id = r := fun r => Function.update_self ..
    -- the other fields of the request stay
    have hsame : ∀ id', (Function.update p.self.objs id
          { p.self.objs id with spec_token_ids := spec } id').status = (p.self.objs id').status ∧
        (Function.update p.self.objs id
          { p.self.objs id with spec_token_ids := spec } id').num_tokens =
          (p.self.objs id').num_tokens ∧
        (Function.update p.self.objs id
          { p.self.objs id with spec_token_ids := spec } id').num_computed_tokens =
          (p.self.objs id').num_computed_tokens := by
      intro id'
      by_cases he : id' = id
      · subst he
        rw [hself]
        exact ⟨rfl, rfl, rfl⟩
      · rw [hother id' he]
        exact ⟨rfl, rfl, rfl⟩
    refine ⟨h.queued.congr rfl rfl (fun id' => (hsame id').1) (.refl _), h.requests, h.mode,
      h.new_reqs, h.resumed_reqs, h.running, h.scheduled, h.processed, h.lists, h.budget, h.counts,
      fun id' => (hsame id').2.1.trans (h.num_tokens id'), fun id' hs => ?_, fun id' hs => ?_,
      fun id' hid' => ?_, fun id' hid' => (hsame id').2.2.trans (h.computed id' hid'), fun id' hf => ?_⟩
    · by_cases he : id' = id
      · subst he
        exact absurd (h.spec id' hs) hspec.1
      · exact (congrArg Request.spec_token_ids (hother id' he _)).trans (h.spec id' hs)
    · have he : id' ≠ id := by
        rintro rfl
        exact hspec.1 (h.spec id' hs)
      rw [Dict.lookup_insert', if_neg he]
      exact h.no_spec id' hs
    · have he : id' ≠ id := by
        rintro rfl
        exact hid' hid
      exact (congrArg Request.spec_token_ids (hother id' he _)).trans (h.unscheduled id' hid')
    · change ¬(Function.update p.self.objs id _ id').status.is_finished ∨
        (Function.update p.self.objs id _ id').status = _
      rw [(hsame id').1]
      exact h.fate id' hf
  · exact h

end Decoding

theorem decode_loop_spec {s : Scheduler K} {p p' : Pass K} {fuel i : Nat}
    (h : Decoding cfg s i p) (hr : decode_loop cfg base fuel i p = .ok p') :
    ∃ i', Decoding cfg s i' p' := by
  induction fuel generalizing i p with
  | zero =>
      cases hr
      exact ⟨i, h⟩
  | succ fuel ih =>
      unfold decode_loop at hr
      split at hr
      · cases hr
        exact ⟨i, h⟩
      · rename_i id hid
        split at hr
        · cases hr
          exact ⟨i, h⟩
        split at hr
        · exact ih h.next hr
        rename_i hbudget hnew
        obtain ⟨n, hn, hr⟩ := bind_eq_ok.mp hr
        split at hr
        · exact ih h.next hr
        rename_i hne
        have hmem := List.mem_of_getElem? hid
        have hnew' : id ∉ p.num_scheduled_tokens := fun hm => hnew ((h.scheduled id).mpr hm)
        obtain ⟨hone, hle, hcount⟩ := Decoding.decode_tokens_spec hn (by omega)
        rw [h.num_tokens, h.computed id hmem] at hone
        rw [h.num_tokens, h.unscheduled id hnew'] at hcount
        obtain ⟨⟨p₁, r⟩, halloc, hr⟩ := bind_eq_ok.mp hr
        obtain ⟨h₁, hbudget₁, hcounts₁, hid₁⟩ := h.allocate hid halloc
        cases r with
        | none =>
            cases hr
            exact ⟨i, h₁⟩
        | some blocks =>
            have h₂ : Decoding cfg s (i + 1) (p₁.record cfg id n blocks) := by
              apply h₁.record (hid₁ blocks rfl) _ hne _ hone (hcount hne)
              · rwa [hcounts₁]
              · rwa [hbudget₁]
            apply ih (h₂.trimSpec _ n) hr
            exact (AList.mem_insert _).mpr (Or.inl rfl)

end TTXla.VllmTT.AscendScheduler
