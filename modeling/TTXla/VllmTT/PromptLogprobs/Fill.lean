import TTXla.VllmTT.PromptLogprobs
import TTXla.VllmTT.ModelRunner.Chunks

-- What one step writes to the tensors of a request.
namespace TTXla.VllmTT

namespace LogprobsTensors

variable {P : Type}

-- The rows of the tensors in progress, if there are any.
def writtenOf (held : Option (LogprobsTensors P)) (p : Nat) : List (LogprobsRow P) :=
  match held with
  | none => []
  | some t => t.written p

end LogprobsTensors

namespace PromptGraphs

variable {H P : Type} (g : PromptGraphs H P)

-- The rows of all the positions of a step.
def rows (num_columns : Nat) (hs : List H) (tgt_ids : List Token) : List (LogprobsRow P) :=
  List.zipWith (fun h token => (g.gather h token).trim num_columns) hs tgt_ids

-- The padding of the buffers is not read.
theorem gather_batch_eq {max_num_reqs num_columns batch_size : Nat} {hs : List H}
    {tgt_ids : List Token} {rows : List (LogprobsRow P)}
    (h : g.gather_batch max_num_reqs num_columns batch_size hs tgt_ids = some rows) :
    hs.length = batch_size ∧ tgt_ids.length = batch_size ∧
      rows = g.rows num_columns hs tgt_ids := by
  unfold gather_batch at h
  simp only [Option.bind_eq_bind, Option.bind_eq_some_iff, Options.guard_eq_some] at h
  obtain ⟨-, hhs, -, htgt, h⟩ := h
  cases h
  refine ⟨hhs, htgt, ?_⟩
  rw [List.zipWith_append (by rw [hhs, htgt]), List.take_left' (by simp [hhs, htgt]),
    PromptGraphs.rows, List.map_zipWith]

-- The rows of a batch are a slice of the rows of the step.
theorem rows_slice (num_columns i j : Nat) (hs : List H) (tgt_ids : List Token) :
    g.rows num_columns ((hs.take j).drop i) ((tgt_ids.take j).drop i) =
      ((g.rows num_columns hs tgt_ids).take j).drop i := by
  simp only [rows, List.take_zipWith, List.drop_zipWith]

theorem length_rows (num_columns : Nat) (hs : List H) (tgt_ids : List Token) :
    (g.rows num_columns hs tgt_ids).length = min hs.length tgt_ids.length :=
  List.length_zipWith

-- The batches, one after the other: the positions before the next batch have their rows.
theorem fill_batches {max_num_reqs num_columns start_idx num_logits : Nat} {hs_cpu : List H}
    {all_tgt_ids : List Token} (hhs : hs_cpu.length ≤ num_logits) {t : LogprobsTensors P}
    (k : Nat) {t' : LogprobsTensors P}
    (h : (List.range' 0 k max_num_reqs).foldlM (fun (t : LogprobsTensors P) batch_start => do
      let batch_end := min (batch_start + max_num_reqs) num_logits
      let batch_size := batch_end - batch_start
      let rows ← g.gather_batch max_num_reqs num_columns batch_size
        ((hs_cpu.take batch_end).drop batch_start) ((all_tgt_ids.take batch_end).drop batch_start)
      t.write (start_idx + batch_start) rows) t = some t') :
    t'.num_positions = t.num_positions ∧ min (k * max_num_reqs) num_logits ≤ hs_cpu.length ∧
      ∀ p, t'.written p = t.written p ++ if start_idx ≤ p then
        ((g.rows num_columns hs_cpu all_tgt_ids).take (k * max_num_reqs))[p - start_idx]?.toList
      else [] := by
  induction k generalizing t' with
  | zero =>
      cases h
      refine ⟨rfl, by simp, fun p => ?_⟩
      simp
  | succ k ih =>
      rw [List.range'_concat, List.foldlM_append] at h
      obtain ⟨mid, hmid, h⟩ := Option.bind_eq_some_iff.mp h
      obtain ⟨hpos, hle, hmid⟩ := ih hmid
      rw [List.foldlM_cons] at h
      obtain ⟨last, hlast, h⟩ := Option.bind_eq_some_iff.mp h
      cases h
      obtain ⟨rows, hrows, hwrite⟩ := Option.bind_eq_some_iff.mp hlast
      obtain ⟨hlen, -, rfl⟩ := g.gather_batch_eq hrows
      obtain ⟨-, -, hwrite⟩ := Option.bind_eq_some_iff.mp hwrite
      cases hwrite
      rw [List.length_drop, List.length_take] at hlen
      simp only [Nat.zero_add, Nat.mul_comm max_num_reqs k, rows_slice] at hlen ⊢
      have hrows := g.length_rows num_columns hs_cpu all_tgt_ids
      generalize hR : g.rows num_columns hs_cpu all_tgt_ids = R at hmid hrows ⊢
      have htake : R.take (min (k * max_num_reqs + max_num_reqs) num_logits) =
          R.take ((k + 1) * max_num_reqs) := by
        rw [List.take_eq_take_iff, Nat.succ_mul]
        omega
      refine ⟨hpos, by rw [Nat.succ_mul]; omega, fun p => ?_⟩
      rw [hmid, htake, List.getElem?_drop]
      by_cases hstart : start_idx ≤ p
      · rw [if_pos hstart, if_pos hstart]
        by_cases hnext : start_idx + k * max_num_reqs ≤ p
        · -- the position is in the new batch, or after it
          rw [if_pos hnext, List.getElem?_eq_none (l := R.take (k * max_num_reqs))
            (by rw [List.length_take]; omega)]
          rw [show k * max_num_reqs + (p - (start_idx + k * max_num_reqs)) = p - start_idx by omega,
            Option.toList_none, List.append_nil]
        · have hlt : p - start_idx < k * max_num_reqs := by omega
          rw [if_neg hnext, List.getElem?_take_of_lt hlt, List.getElem?_take_of_lt]
          rw [Nat.succ_mul]
          omega
      · rw [if_neg hstart, if_neg hstart, if_neg (by omega)]

-- All the batches: every position of the step gets its row.
theorem fill_spec {max_num_reqs num_columns start_idx num_logits : Nat} {hs_cpu : List H}
    {all_tgt_ids : List Token} (hreqs : 0 < max_num_reqs) (hhs : hs_cpu.length ≤ num_logits)
    {t t' : LogprobsTensors P}
    (h : g.fill max_num_reqs num_columns start_idx num_logits hs_cpu all_tgt_ids t = some t') :
    t'.num_positions = t.num_positions ∧ hs_cpu.length = num_logits ∧
      ∀ p, t'.written p = t.written p ++ if start_idx ≤ p then
        (g.rows num_columns hs_cpu all_tgt_ids)[p - start_idx]?.toList else [] := by
  obtain ⟨hpos, hle, hwritten⟩ := g.fill_batches hhs _ h
  have hcover : num_logits ≤ cdiv num_logits max_num_reqs * max_num_reqs := by
    unfold cdiv
    have hmod := Nat.div_add_mod (num_logits + max_num_reqs - 1) max_num_reqs
    have hlt := Nat.mod_lt (num_logits + max_num_reqs - 1) hreqs
    rw [Nat.mul_comm] at hmod
    omega
  have hlen := g.length_rows num_columns hs_cpu all_tgt_ids
  refine ⟨hpos, by omega, fun p => ?_⟩
  rw [hwritten, List.take_of_length_le (by omega)]

-- The tensors of a request after a step that computes positions of its prompt. With no tensors
-- in progress the step begins with empty ones.
theorem request_logprobs_spec {max_num_reqs : Nat} {num_plp : Int}
    {prompt_token_ids : List Token} {start_idx num_tokens : Nat} {prompt_lp_hs : Option (List H)}
    {held : Option (LogprobsTensors P)} {t : LogprobsTensors P} {completed : Bool}
    (hreqs : 0 < max_num_reqs) (hstart : start_idx < prompt_token_ids.length)
    (h : g.request_logprobs max_num_reqs num_plp prompt_token_ids start_idx num_tokens prompt_lp_hs
      held = some (t, completed)) :
    (completed = true ↔ prompt_token_ids.length ≤ start_idx + num_tokens) ∧
      (∀ p, start_idx ≤ p → p < start_idx + num_tokens → p + 1 < prompt_token_ids.length →
        ∃ h token, (prompt_lp_hs.bind fun hs => hs[p - start_idx]?) = some h ∧
          prompt_token_ids[p + 1]? = some token ∧
          t.written p = LogprobsTensors.writtenOf held p ++
            [(g.gather h token).trim (min num_plp g.max_logprobs + 1).toNat]) ∧
      ∀ p, p < start_idx ∨ start_idx + num_tokens ≤ p →
        t.written p = LogprobsTensors.writtenOf held p := by
  unfold request_logprobs at h
  obtain ⟨t₀, ht₀, h⟩ := Option.bind_eq_some_iff.mp h
  have hheld : ∀ p, t₀.written p = LogprobsTensors.writtenOf held p := by
    intro p
    cases held with
    | none =>
        obtain ⟨-, -, ht₀⟩ := Option.bind_eq_some_iff.mp ht₀
        obtain ⟨-, -, ht₀⟩ := Option.bind_eq_some_iff.mp ht₀
        cases ht₀
        rfl
    | some t' =>
        cases ht₀
        rfl
  dsimp only at h
  -- how many positions the step computes logprobs for
  obtain ⟨n, hn⟩ : ∃ n, n = min num_tokens (prompt_token_ids.length - (start_idx + 1)) := ⟨_, rfl⟩
  have hlogits : (if decide ((prompt_token_ids.length : Int) - (start_idx + 1 : Nat) < num_tokens) =
      true then (prompt_token_ids.length : Int) - (start_idx + 1 : Nat) else (num_tokens : Int)) =
      (n : Int) := by
    split
    · rename_i hdone
      rw [decide_eq_true_iff] at hdone
      omega
    · rename_i hpart
      rw [decide_eq_true_iff] at hpart
      omega
  rw [hlogits] at h
  split at h
  · rename_i hnone
    cases h
    refine ⟨?_, fun p hp hlt hlen => by omega, fun p _ => hheld p⟩
    rw [decide_eq_true_iff]
    omega
  · rename_i hsome
    simp only [Option.bind_eq_bind, Option.bind_eq_some_iff] at h
    obtain ⟨hs, rfl, t', hfill, h⟩ := h
    cases h
    rw [Int.toNat_natCast] at hfill
    obtain ⟨-, hlen, hwritten⟩ := g.fill_spec hreqs (List.length_take_le _ _) hfill
    rw [List.length_take] at hlen
    refine ⟨?_, fun p hp hlt hend => ?_, fun p hout => ?_⟩
    · rw [decide_eq_true_iff]
      omega
    · have hq : p - start_idx < n := by omega
      have hh : hs[p - start_idx]? = some (hs.get ⟨p - start_idx, by omega⟩) :=
        List.getElem?_eq_getElem (by omega)
      have htok : prompt_token_ids[p + 1]? = some (prompt_token_ids.get ⟨p + 1, hend⟩) :=
        List.getElem?_eq_getElem hend
      refine ⟨_, _, hh, htok, ?_⟩
      rw [hwritten, hheld, if_pos hp, rows, List.getElem?_zipWith, List.getElem?_take_of_lt hq,
        List.getElem?_take_of_lt hq, List.getElem?_drop, hh,
        show start_idx + 1 + (p - start_idx) = p + 1 by omega, htok]
      rfl
    · rw [hwritten, hheld]
      have hrows := g.length_rows (min num_plp g.max_logprobs + 1).toNat (hs.take n)
        ((prompt_token_ids.drop (start_idx + 1)).take n)
      rw [List.length_take] at hrows
      split
      · rw [List.getElem?_eq_none (by omega)]
        exact List.append_nil _
      · exact List.append_nil _

-- `empty_cpu` raises for an empty prompt.
theorem request_logprobs_empty {max_num_reqs : Nat} {num_plp : Int}
    {prompt_token_ids : List Token} {start_idx num_tokens : Nat} {prompt_lp_hs : Option (List H)}
    {t : LogprobsTensors P} {completed : Bool}
    (h : g.request_logprobs max_num_reqs num_plp prompt_token_ids start_idx num_tokens prompt_lp_hs
      none = some (t, completed)) : 0 < prompt_token_ids.length := by
  obtain ⟨t₀, ht₀, -⟩ := Option.bind_eq_some_iff.mp h
  obtain ⟨u, hsize, -⟩ := Option.bind_eq_some_iff.mp ht₀
  rw [Options.guard_eq_some] at hsize
  omega

end PromptGraphs

end TTXla.VllmTT
