import TTXla.VllmTT.AscendScheduler.Schedule
import TTXla.Lib.Options
import Mathlib.Logic.Relation
import Mathlib.Data.List.Perm.Basic

-- How `schedule` moves requests between the queues.
namespace TTXla.VllmTT.AscendScheduler

open Excepts (ensure bind_eq_ok ensure_eq_ok get_eq_ok)

variable {K LP : Type}

-- Every unfinished request is in one of two queues, and its status tells which.
structure Queued (s : Scheduler K) (waiting : List ReqId) : Prop where
  nodup : (waiting ++ s.running).Nodup
  registered : ∀ id ∈ waiting ++ s.running, id ∈ s.requests
  waiting_status : ∀ id ∈ waiting, (s.objs id).status.is_waiting
  running_status : ∀ id ∈ s.running, (s.objs id).status = .RUNNING
  complete : ∀ id ∈ s.requests, ¬(s.objs id).status.is_finished → id ∈ waiting ++ s.running

-- The state between the calls.
abbrev Consistent (s : Scheduler K) : Prop := Queued s s.waiting

theorem RequestStatus.not_finished_of_waiting {st : RequestStatus} (h : st.is_waiting) :
    ¬st.is_finished := by
  cases st <;> simp_all [is_waiting, is_finished]

theorem RequestStatus.ne_running_of_waiting {st : RequestStatus} (h : st.is_waiting) :
    st ≠ .RUNNING := by
  rintro rfl
  cases h

namespace Queued

variable {s s' : Scheduler K} {w w' : List ReqId} {id : ReqId}

theorem unfinished (h : Queued s w) (hid : id ∈ w ++ s.running) :
    ¬(s.objs id).status.is_finished := by
  rcases List.mem_append.mp hid with hw | hr
  · exact RequestStatus.not_finished_of_waiting (h.waiting_status id hw)
  · rw [h.running_status id hr]
    decide

-- One request may change its queue and its status.
theorem move (h : Queued s w) (hid : id ∈ w ++ s.running)
    (hperm : (w' ++ s'.running).Perm (w ++ s.running)) (hreq : s'.requests = s.requests)
    (hother : ∀ id', id' ≠ id → (s'.objs id').status = (s.objs id').status)
    (hw : ∀ id' ∈ w', id' = id ∨ id' ∈ w) (hr : ∀ id' ∈ s'.running, id' = id ∨ id' ∈ s.running)
    (hwid : id ∈ w' → (s'.objs id).status.is_waiting)
    (hrid : id ∈ s'.running → (s'.objs id).status = .RUNNING) : Queued s' w' where
  nodup := hperm.nodup_iff.mpr h.nodup
  registered := fun id' hid' => by
    rw [hreq]
    exact h.registered id' (hperm.mem_iff.mp hid')
  waiting_status := fun id' hid' => by
    by_cases he : id' = id
    · subst he
      exact hwid hid'
    · rw [hother id' he]
      exact h.waiting_status id' ((hw id' hid').resolve_left he)
  running_status := fun id' hid' => by
    by_cases he : id' = id
    · subst he
      exact hrid hid'
    · rw [hother id' he]
      exact h.running_status id' ((hr id' hid').resolve_left he)
  complete := fun id' hid' hf => by
    apply hperm.mem_iff.mpr
    by_cases he : id' = id
    · subst he
      exact hid
    · rw [hother id' he] at hf
      rw [hreq] at hid'
      exact h.complete id' hid' hf

-- Nothing but the other fields changes.
theorem congr (h : Queued s w) (hrun : s'.running = s.running) (hreq : s'.requests = s.requests)
    (hstatus : ∀ id, (s'.objs id).status = (s.objs id).status) (hperm : w'.Perm w) :
    Queued s' w' where
  nodup := by
    rw [hrun]
    exact (hperm.append_right _).nodup_iff.mpr h.nodup
  registered := fun id hid => by
    rw [hreq]
    rw [hrun] at hid
    exact h.registered id ((hperm.append_right _).mem_iff.mp hid)
  waiting_status := fun id hid => by
    rw [hstatus]
    exact h.waiting_status id (hperm.mem_iff.mp hid)
  running_status := fun id hid => by
    rw [hstatus]
    rw [hrun] at hid
    exact h.running_status id hid
  complete := fun id hid hf => by
    rw [hstatus] at hf
    rw [hreq] at hid
    rw [hrun]
    exact (hperm.append_right _).mem_iff.mpr (h.complete id hid hf)

-- A request leaves its queue because it is finished.
theorem drop (h : Queued s (id :: w)) (hrun : s'.running = s.running)
    (hreq : s'.requests = s.requests)
    (hother : ∀ id', id' ≠ id → (s'.objs id').status = (s.objs id').status)
    (hfin : (s'.objs id).status.is_finished) : Queued s' w := by
  have hnodup := h.nodup
  rw [List.cons_append, List.nodup_cons] at hnodup
  have hne : ∀ id' ∈ w ++ s.running, id' ≠ id := by
    rintro id' hid' rfl
    exact hnodup.1 hid'
  refine ⟨by rw [hrun]; exact hnodup.2, fun id' hid' => ?_, fun id' hid' => ?_, fun id' hid' => ?_,
    fun id' hid' hf => ?_⟩
  · rw [hreq]
    rw [hrun] at hid'
    exact h.registered id' (List.mem_cons_of_mem _ hid')
  · rw [hother id' (hne id' (List.mem_append_left _ hid'))]
    exact h.waiting_status id' (List.mem_cons_of_mem _ hid')
  · rw [hrun] at hid'
    rw [hother id' (hne id' (List.mem_append_right _ hid'))]
    exact h.running_status id' hid'
  · have he : id' ≠ id := by
      rintro rfl
      exact hf hfin
    rw [hother id' he] at hf
    rw [hreq] at hid'
    rw [hrun]
    exact (List.mem_cons.mp (h.complete id' hid' hf)).resolve_left he

end Queued

section Judge

variable {cfg : Config} {base : Base K LP}

-- A request is the same before and after, but for its status and its computed tokens.
structure SameTokens (r r' : Request) : Prop where
  prompt : r'.prompt_token_ids = r.prompt_token_ids
  output : r'.output_token_ids = r.output_token_ids
  spec : r'.spec_token_ids = r.spec_token_ids

theorem SameTokens.refl (r : Request) : SameTokens r r := ⟨rfl, rfl, rfl⟩

theorem SameTokens.trans {r r' r'' : Request} (h : SameTokens r r') (h' : SameTokens r' r'') :
    SameTokens r r'' :=
  ⟨h'.prompt.trans h.prompt, h'.output.trans h.output, h'.spec.trans h.spec⟩

theorem SameTokens.num_tokens {r r' : Request} (h : SameTokens r r') :
    r'.num_tokens = r.num_tokens := by
  rw [Request.num_tokens, h.prompt, h.output, Request.num_tokens]

theorem unblock_spec {kv kv' : K} {id : ReqId} {r r' : Request} {ready : Bool}
    (h : unblock base kv id r = (kv', r', ready)) :
    SameTokens r r' ∧ (r'.status = r.status ∨ r'.status = .WAITING) := by
  unfold unblock at h
  by_cases hremote : r.status = .WAITING_FOR_REMOTE_KVS
  · rw [if_pos hremote] at h
    dsimp only at h
    cases hready : (base.update_waiting_for_remote_kv kv id r).2.2 with
    | true =>
        simp only [hready, ite_true, reduceCtorEq, and_false, ite_false, Prod.mk.injEq] at h
        obtain ⟨-, rfl, -⟩ := h
        exact ⟨⟨rfl, rfl, rfl⟩, Or.inr rfl⟩
    | false =>
        simp only [hready, Bool.false_eq_true, ite_false, false_and, Prod.mk.injEq] at h
        obtain ⟨-, rfl, -⟩ := h
        exact ⟨⟨rfl, rfl, rfl⟩, Or.inl rfl⟩
  · rw [if_neg hremote] at h
    simp only [true_and] at h
    split at h
    · split at h
      · cases h
        exact ⟨⟨rfl, rfl, rfl⟩, Or.inr rfl⟩
      · cases h
        exact ⟨.refl _, Or.inl rfl⟩
    · cases h
      exact ⟨.refl _, Or.inl rfl⟩

theorem place_ne_ignore {id : ReqId} {r : Request} {c : Computed K} {n : Nat}
    {blocks : Option (List KVCacheBlock)} : (place cfg base id r c n blocks).2 ≠ .ignore := by
  unfold place
  split
  · dsimp only
    split
    · simp
    · split <;> simp
  · simp

theorem place_enter {id : ReqId} {r : Request} {c : Computed K} {n c' n' : Nat}
    {blocks : Option (List KVCacheBlock)} {b : KVCacheBlocks}
    (h : (place cfg base id r c n blocks).2 = .enter c' n' b) :
    c.load_kv_async = false ∧ c' = c.num_computed_tokens ∧ n' = n := by
  unfold place at h
  split at h
  · dsimp only at h
    split at h
    · cases h
    · split at h
      · cases h
      · rename_i hasync
        cases h
        exact ⟨by simpa using hasync, rfl, rfl⟩
  · cases h

theorem computed_tokens_total {kv : K} {id : ReqId} {r : Request} {c : Computed K}
    (h : computed_tokens base kv id r = .ok c) : c.num_computed_tokens =
      r.num_computed_tokens + c.num_new_local_computed_tokens + c.num_external_computed_tokens := by
  unfold computed_tokens at h
  split at h
  · rename_i hzero
    dsimp only at h
    split at h
    · cases h
      simp [hzero]
    · obtain ⟨n, -, h⟩ := bind_eq_ok.mp h
      cases h
      simp [hzero]
  · cases h
    rfl

-- What a verdict tells about the request.
structure Judged (token_budget : Int) (r r' : Request) (v : Verdict) : Prop where
  tokens : SameTokens r r'
  status : r'.status = r.status ∨ r'.status = .WAITING
  enter : ∀ c n b, v = .enter c n b → 0 < n ∧ c + n = r'.num_tokens ∧ (n : Int) ≤ token_budget

theorem judge_spec {kv kv' : K} {loras : Finset Nat} {token_budget : Int} {id : ReqId}
    {r r' : Request} {v : Verdict}
    (h : judge cfg base kv loras token_budget id r = .ok (kv', r', v)) :
    Judged token_budget r r' v := by
  unfold judge at h
  split at h
  rename_i kv₁ r₁ ready hu
  obtain ⟨htokens, hstatus⟩ := unblock_spec hu
  split at h
  · cases h
    exact ⟨htokens, hstatus, nofun⟩
  split at h
  · cases h
    exact ⟨htokens, hstatus, nofun⟩
  obtain ⟨c, -, h⟩ := bind_eq_ok.mp h
  split at h
  · rename_i hasync
    obtain ⟨-, -, h⟩ := bind_eq_ok.mp h
    cases h
    refine ⟨htokens, hstatus, fun c' n b hv => ?_⟩
    have := (place_enter hv).1
    rw [this] at hasync
    cases hasync
  obtain ⟨limit, -, h⟩ := bind_eq_ok.mp h
  dsimp only at h
  split at h
  · cases h
    exact ⟨htokens, hstatus, nofun⟩
  split at h
  · cases h
    exact ⟨htokens, hstatus, nofun⟩
  rename_i hbudget
  obtain ⟨u, hpos, h⟩ := bind_eq_ok.mp h
  have hpos := ensure_eq_ok.mp hpos
  obtain ⟨blocks, -, h⟩ := bind_eq_ok.mp h
  cases h
  refine ⟨htokens, hstatus, fun c' n b hv => ?_⟩
  obtain ⟨-, rfl, rfl⟩ := place_enter hv
  omega

theorem Judged.waiting {token_budget : Int} {r r' : Request} {v : Verdict}
    (h : Judged token_budget r r' v) (hw : r.status.is_waiting) : r'.status.is_waiting := by
  rcases h.status with hs | hs
  · rwa [hs]
  · rw [hs]
    rfl

end Judge

end TTXla.VllmTT.AscendScheduler
