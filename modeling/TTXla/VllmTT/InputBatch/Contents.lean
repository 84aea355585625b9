import TTXla.VllmTT.InputBatch.Rows

-- The batch seen as a map from request ids to rows, wherever the rows lie.
namespace TTXla.VllmTT.InputBatch

variable {T : Type} [BlockTable T]

def rowOf (b : InputBatch T) (id : ReqId) : Option Row :=
  (b.req_id_to_index.lookup id).map b.row

-- Between the operations of one `_update_states` the vacant rows are the removed ones.
structure Holes (b : InputBatch T) (removed : List Nat) : Prop where
  indexed : b.Indexed
  nodup : removed.Nodup
  vacant : ∀ i, b.req_ids[i]? = some none ↔ i ∈ removed
  count : b.num_reqs + removed.length = b.req_ids.length

-- Between calls no row is vacant.
abbrev Full (b : InputBatch T) : Prop := Holes b []

omit [BlockTable T] in
theorem Full.length_eq {b : InputBatch T} (h : b.Full) : b.req_ids.length = b.num_reqs := by
  simpa using h.count.symm

omit [BlockTable T] in
theorem Full.exists_id {b : InputBatch T} (h : b.Full) {i : Nat} (hi : i < b.num_reqs) :
    ∃ id, b.req_ids[i]? = some (some id) ∧ b.req_id_to_index.lookup id = some i := by
  have hlt : i < b.req_ids.length := by rw [h.length_eq]; exact hi
  cases ho : b.req_ids[i] with
  | none =>
      have := (h.vacant i).mp (by rw [List.getElem?_eq_getElem hlt, ho])
      cases this
  | some id =>
      have hr : b.req_ids[i]? = some (some id) := by rw [List.getElem?_eq_getElem hlt, ho]
      exact ⟨id, hr, (h.indexed.inverse id i).mpr hr⟩

omit [BlockTable T] in
theorem Full.lt_num_reqs {b : InputBatch T} (h : b.Full) {id : ReqId} {i : Nat}
    (hi : b.req_id_to_index.lookup id = some i) : i < b.num_reqs := by
  rw [← h.length_eq]; exact h.indexed.inverse.lt hi

omit [BlockTable T] in
-- The occupied rows list the keys of the index, each once.
theorem Full.req_ids_eq {b : InputBatch T} (h : b.Full) :
    ∃ ids : List ReqId, b.req_ids = ids.map some ∧ ids.Perm b.req_id_to_index.keys := by
  have hnone : none ∉ b.req_ids := by
    intro hm
    obtain ⟨i, hi⟩ := List.mem_iff_getElem?.mp hm
    exact List.not_mem_nil ((h.vacant i).mp hi)
  refine ⟨b.req_ids.reduceOption, ?_, h.indexed.inverse.ids_perm⟩
  have hall : ∀ l : List (Option ReqId), none ∉ l → l = l.reduceOption.map some := by
    intro l hl
    induction l with
    | nil => rfl
    | cons o l ih =>
        rw [List.mem_cons, not_or] at hl
        obtain ⟨x, rfl⟩ := Option.ne_none_iff_exists'.mp (Ne.symm hl.1)
        rw [List.reduceOption_cons_of_some, List.map_cons, ← ih hl.2]
  exact hall _ hnone

omit [BlockTable T] in
theorem full_init (memory : InputBatch T) : (init memory).Full :=
  ⟨⟨.nil, rfl⟩, List.nodup_nil, fun i => by simp [init], rfl⟩

section Remove

variable (cfg : BatchConfig) {b b' : InputBatch T} {removed : List Nat}

theorem holes_remove_request {id : ReqId} {r : Option Nat} (h : b.Holes removed)
    (hr : b.remove_request cfg id = some (r, b')) :
    b'.Holes (removed ++ r.toList) ∧
      b'.req_ids.length = b.req_ids.length ∧
      (∀ k, b'.req_id_to_index.lookup k =
        if k = id then none else b.req_id_to_index.lookup k) ∧
      BlockTable.groups b'.block_table = BlockTable.groups b.block_table ∧
      ∀ k, b'.rowOf k = if k = id then none else b.rowOf k := by
  cases hi : b.req_id_to_index.lookup id with
  | none =>
      obtain ⟨rfl, rfl⟩ := remove_request_absent cfg b hi hr
      have hlk : ∀ k, b'.req_id_to_index.lookup k =
          if k = id then none else b'.req_id_to_index.lookup k := by
        intro k
        split
        · rename_i he; exact he ▸ hi
        · rfl
      refine ⟨by simpa using h, rfl, hlk, rfl, fun k => ?_⟩
      unfold rowOf
      rw [hlk k]
      split <;> rfl
  | some i =>
      have hri := (remove_request_eq cfg b hi hr).1
      obtain ⟨hidx, hidx', hids, hg, hrow⟩ := row_remove_request cfg b h.indexed hi hr
      have hmem : id ∈ b.req_id_to_index := (Dict.mem_iff _ _).mpr ⟨i, hi⟩
      have hlt := h.indexed.inverse.lt hi
      have hocc := (h.indexed.inverse id i).mp hi
      have hnot : i ∉ removed := by
        intro hm
        rw [(h.vacant i).mpr hm] at hocc
        simp at hocc
      have hlk : ∀ k, b'.req_id_to_index.lookup k =
          if k = id then none else b.req_id_to_index.lookup k := by
        intro k; rw [hidx', Dict.lookup_erase']
      subst hri
      refine ⟨⟨hidx, ?_, ?_, ?_⟩, by rw [hids, List.length_set], hlk, hg, fun k => ?_⟩
      · refine h.nodup.append (List.nodup_singleton i) fun j hj hj' => ?_
        rw [Option.toList_some, List.mem_singleton] at hj'
        exact hnot (hj' ▸ hj)
      · intro j
        rw [hids, List.getElem?_set, List.mem_append, ← h.vacant j]
        by_cases hj : i = j
        · subst hj; simp [hlt]
        · simp [hj, Ne.symm hj]
      · have := Dict.length_keys_erase b.req_id_to_index id hmem
        have := h.count
        simp only [num_reqs, hidx', hids, List.length_set, List.length_append,
          Option.toList_some, List.length_singleton] at *
        omega
      · unfold rowOf
        rw [hlk k]
        split
        · rfl
        · rename_i hk
          cases hj : b.req_id_to_index.lookup k with
          | none => rfl
          | some j =>
              have hne : j ≠ i := by
                rintro rfl; exact hk (h.indexed.inverse.unique hj hi)
              simp [hrow j hne]

end Remove

section Add

variable (cfg : BatchConfig) (outs : OutRef → List Token) {b b' : InputBatch T}
  {removed : List Nat}

-- A request that was added fits in a row of the token buffer, unless it already had
-- output tokens.
theorem prompt_length_le_of_add {st : CachedRequestState} {req_index : Option Nat}
    (h : b.add_request cfg outs st req_index = some b') :
    st.prompt_token_ids.length ≤ cfg.max_model_len := by
  obtain ⟨i, b₁, b₂, b₃, b₄, -, -, -, h2, -⟩ := add_request_stages cfg outs b st h
  simp only [copy_token_ids, Option.bind_eq_bind, Option.bind_eq_some_iff] at h2
  obtain ⟨row, hrow, -⟩ := h2
  have := cfg.max_model_len_pos
  unfold npAssign at hrow
  split at hrow
  · omega
  · split at hrow
    · omega
    · cases hrow

theorem index_lt_of_add {st : CachedRequestState} {req_index : Option Nat}
    (h : b.add_request cfg outs st req_index = some b') :
    req_index.getD b.num_reqs < cfg.max_num_reqs := by
  obtain ⟨i, b₁, b₂, b₃, b₄, rfl, hlt, -⟩ := add_request_stages cfg outs b st h
  exact hlt

-- The request goes to the last of the vacant rows, or to a new row if there is none.
theorem holes_add_request {st : CachedRequestState} (h : b.Holes removed)
    (hid : st.req_id ∉ b.req_id_to_index) (hfit : st.num_tokens outs ≤ cfg.max_model_len)
    (hr : b.add_request cfg outs st removed.getLast? = some b') :
    b'.Holes removed.dropLast ∧
      b'.num_reqs = b.num_reqs + 1 ∧
      (∀ k, k ∈ b'.req_id_to_index ↔ k = st.req_id ∨ k ∈ b.req_id_to_index) ∧
      BlockTable.groups b'.block_table = BlockTable.groups b.block_table ∧
      ∃ r, AddedRow outs st (BlockTable.groups b.block_table) r ∧
        ∀ k, b'.rowOf k = if k = st.req_id then some r else b.rowOf k := by
  obtain ⟨hrow, hg, hadded⟩ := row_add_request cfg outs b st h.indexed hfit hr
  have hvac : ∀ i, removed.getLast? = some i → b.req_ids[i]? = some none := fun i hi =>
    (h.vacant i).mpr (List.mem_of_getLast? hi)
  have happ : removed.getLast? = none → b.num_reqs = b.req_ids.length := by
    intro hn
    have := h.count
    rw [List.getLast?_eq_none_iff.mp hn] at this
    simpa using this
  obtain ⟨hidx, hidx', hset, hadd⟩ :=
    indexed_add_request cfg outs b st h.indexed hid hvac happ hr
  have hcount : b'.num_reqs = b.num_reqs + 1 := by
    rw [num_reqs, hidx', Dict.length_keys_insert _ _ _ hid]; rfl
  have hrows : ∀ k, b'.rowOf k = if k = st.req_id then
      some (b'.row (removed.getLast?.getD b.num_reqs)) else b.rowOf k := by
    intro k
    unfold rowOf
    rw [hidx', Dict.lookup_insert']
    split
    · rfl
    · cases hk : b.req_id_to_index.lookup k with
      | none => rfl
      | some j =>
          have hj : j ≠ removed.getLast?.getD b.num_reqs := by
            have hocc := (h.indexed.inverse k j).mp hk
            rintro rfl
            cases hl : removed.getLast? with
            | some i =>
                rw [hl, Option.getD_some, hvac i hl] at hocc
                simp at hocc
            | none =>
                rw [hl, Option.getD_none, happ hl] at hocc
                simp at hocc
          rw [Option.map_some, Option.map_some, hrow j hj]
  refine ⟨⟨hidx, h.nodup.sublist (List.dropLast_sublist _), ?_, ?_⟩, hcount, ?_, hg, _, hadded,
    hrows⟩
  · intro j
    cases hl : removed.getLast? with
    | none =>
        have := List.getLast?_eq_none_iff.mp hl
        subst this
        rw [hadd rfl]
        have hv := h.vacant j
        by_cases hj : j < b.req_ids.length
        · rw [List.getElem?_append_left hj, hv]; simp
        · rw [List.getElem?_append_right (by omega)]
          cases hjj : j - b.req_ids.length with
          | zero => simp
          | succ n => simp
    | some i =>
        have hsplit : removed.dropLast ++ [i] = removed :=
          List.dropLast_append_getLast? i hl
        have hnd : (removed.dropLast ++ [i]).Nodup := hsplit.symm ▸ h.nodup
        have hni : i ∉ removed.dropLast := fun hm =>
          (List.nodup_append.mp hnd).2.2 i hm i (List.mem_singleton_self i) rfl
        have hv := h.vacant j
        have hlt : i < b.req_ids.length := (List.getElem?_eq_some_iff.mp (hvac i hl)).1
        rw [hset i hl, List.getElem?_set]
        by_cases hij : i = j
        · subst hij; simp [hlt, hni]
        · rw [← hsplit] at hv
          simp only [hij, ite_false, hv, List.mem_append, List.mem_singleton, Ne.symm hij,
            or_false]
  · have hc := h.count
    rw [hcount]
    cases hl : removed.getLast? with
    | none =>
        have := List.getLast?_eq_none_iff.mp hl
        subst this
        rw [hadd rfl]
        simp at hc ⊢
        omega
    | some i =>
        have : removed ≠ [] := by rintro rfl; simp at hl
        have := List.length_pos_iff.mpr this
        rw [hset i hl]
        simp only [List.length_set, List.length_dropLast]
        omega
  · intro k
    rw [hidx', AList.mem_insert]

end Add

-- `sorted(removed, reverse=True)`.
def sortedDesc (l : List Nat) : List Nat := l.insertionSort (· ≥ ·)

theorem sortedDesc_perm (l : List Nat) : (sortedDesc l).Perm l := List.perm_insertionSort _ l

theorem sortedDesc_ascending {l : List Nat} (h : l.Nodup) :
    (sortedDesc l).reverse.Pairwise (· < ·) := by
  have hs : (sortedDesc l).Pairwise (· ≥ ·) := List.pairwise_insertionSort _ l
  have hn : (sortedDesc l).Nodup := (sortedDesc_perm l).nodup_iff.mpr h
  rw [List.pairwise_reverse]
  exact hs.imp₂ (fun a b hab hne => by omega) hn

section Condense

variable {b : InputBatch T}

omit [BlockTable T] in
-- The last row is occupied or vacant, and below it the vacant rows are the given ones.
theorem holes_plan {removed : List Nat} (h : b.Holes removed)
    (hdesc : removed.reverse.Pairwise (· < ·)) (h0 : b.num_reqs ≠ 0) :
    Slots.Plan b.req_ids (b.num_reqs + removed.length - 1) removed.reverse := by
  have hc := h.count
  refine ⟨by omega, fun j h1 h2 => by omega, fun j hj => ?_, hdesc, ?_⟩
  · rw [h.vacant j, List.mem_reverse]
  · obtain ⟨id, hid⟩ := List.exists_mem_of_length_pos (Nat.pos_of_ne_zero h0)
    obtain ⟨i, hi⟩ := (Dict.mem_iff _ _).mp (AList.mem_keys.mpr hid)
    have hlt := h.indexed.inverse.lt hi
    refine ⟨i, by omega, fun hm => ?_⟩
    have := (h.vacant i).mpr (List.mem_reverse.mp hm)
    rw [(h.indexed.inverse id i).mp hi] at this
    simp at this

-- What every move into a vacant row preserves, and trimming too, holds after compaction.
theorem condense_rule {removed : List Nat} (P : InputBatch T → Prop) (h : b.Holes removed)
    (hdesc : removed.reverse.Pairwise (· < ·)) (hb : P b)
    (hmove : ∀ (c : InputBatch T) (src dst : Nat) (id : ReqId), c.Indexed → P c →
      c.req_ids[src]? = some (some id) → c.req_ids[dst]? = some none →
      P (c.condense_move src dst))
    (htrim : ∀ (c : InputBatch T) (n : Nat), P c → P (c.trim n)) : P (b.condense removed) := by
  unfold condense
  by_cases h0 : b.num_reqs = 0
  · simpa [trim, h0] using htrim b 0 hb
  · simp only [h0, ite_false]
    have hstep : ∀ (c : InputBatch T) (src dst : Nat) (id : ReqId), c.Indexed ∧ P c →
        dst < src → c.req_ids[src]? = some (some id) → c.req_ids[dst]? = some none →
        (c.condense_move src dst).req_ids = (c.req_ids.set dst (some id)).set src none ∧
          (c.condense_move src dst).Indexed ∧ P (c.condense_move src dst) := by
      intro c src dst id ⟨hidx, hc⟩ _ hs hd
      obtain ⟨m1, m2, -⟩ := row_condense_move c hidx hs hd
      exact ⟨m2, m1, hmove c src dst id hidx hc hs hd⟩
    exact htrim _ _ (Slots.compact_rule condense_move InputBatch.req_ids
      (fun c => c.Indexed ∧ P c) hstep b _ _ (holes_plan h hdesc h0) ⟨h.indexed, hb⟩).1.2

-- Compaction keeps the row of every request and leaves no vacant row.
theorem condense_spec {removed : List Nat} (h : b.Holes removed)
    (hdesc : removed.reverse.Pairwise (· < ·)) :
    (b.condense removed).Full ∧ (b.condense removed).num_reqs = b.num_reqs ∧
      (∀ id, id ∈ (b.condense removed).req_id_to_index ↔ id ∈ b.req_id_to_index) ∧
      BlockTable.groups (b.condense removed).block_table = BlockTable.groups b.block_table ∧
      ∀ id, (b.condense removed).rowOf id = b.rowOf id := by
  by_cases h0 : b.num_reqs = 0
  · have hempty : b.req_id_to_index = ∅ := by
      have : b.req_id_to_index.keys = [] := List.eq_nil_of_length_eq_zero h0
      apply AList.ext
      simpa [AList.keys, List.keys] using this
    have hlk : ∀ id, b.req_id_to_index.lookup id = none := fun id => by rw [hempty]; simp
    have he : b.condense removed = { b with req_ids := [], req_output_token_ids := [] } := by
      simp [condense, h0]
    rw [he]
    refine ⟨⟨⟨?_, rfl⟩, List.nodup_nil, fun i => by simp, ?_⟩, rfl, fun _ => Iff.rfl, rfl,
      fun id => ?_⟩
    · rw [hempty]; exact .nil
    · simpa [num_reqs] using h0
    · simp [rowOf, hlk]
  · have hrest : b.condense removed = (Slots.compact condense_move b
        (b.num_reqs + removed.length - 1) removed.reverse).trim b.num_reqs := by
      simp [condense, h0]
    let P : InputBatch T → Prop := fun c => c.Indexed ∧ c.num_reqs = b.num_reqs ∧
      (∀ id, id ∈ c.req_id_to_index ↔ id ∈ b.req_id_to_index) ∧
      BlockTable.groups c.block_table = BlockTable.groups b.block_table ∧
      ∀ id, c.rowOf id = b.rowOf id
    have hmove : ∀ (c : InputBatch T) (src dst : Nat) (id : ReqId), P c → dst < src →
        c.req_ids[src]? = some (some id) → c.req_ids[dst]? = some none →
        (c.condense_move src dst).req_ids = (c.req_ids.set dst (some id)).set src none ∧
          P (c.condense_move src dst) := by
      intro c src dst id ⟨hidx, hn, hmem, hg, hrow⟩ _ hs hd
      obtain ⟨m1, m2, m3, m4, m5, m6⟩ := row_condense_move c hidx hs hd
      have hsrc : c.req_id_to_index.lookup id = some src := (hidx.inverse id src).mpr hs
      have hin : id ∈ c.req_id_to_index := (Dict.mem_iff _ _).mpr ⟨src, hsrc⟩
      refine ⟨m2, m1, ?_, fun k => ?_, by rw [m4, hg], fun k => ?_⟩
      · rw [← hn, num_reqs, m3, Dict.length_keys_insert_mem _ _ _ hin]; rfl
      · rw [m3, AList.mem_insert, ← hmem k]
        constructor
        · rintro (rfl | hk)
          · exact hin
          · exact hk
        · exact Or.inr
      · rw [← hrow k]
        unfold rowOf
        rw [m3, Dict.lookup_insert']
        split
        · rename_i he
          subst he
          rw [hsrc, Option.map_some, Option.map_some, m5]
        · rename_i hk
          cases hj : c.req_id_to_index.lookup k with
          | none => rfl
          | some j =>
              have hjd : j ≠ dst := by
                rintro rfl
                have := (hidx.inverse k j).mp hj
                rw [hd] at this
                simp at this
              have hjs : j ≠ src := by
                rintro rfl; exact hk (hidx.inverse.unique hj hsrc)
              rw [Option.map_some, Option.map_some, m6 j hjd hjs]
    have hplan := holes_plan h hdesc h0
    obtain ⟨⟨hidx, hn, hmem, hg, hrow⟩, hlen, n, hnle, hvac⟩ :=
      Slots.compact_rule condense_move InputBatch.req_ids P hmove b _ _ hplan
        ⟨h.indexed, rfl, fun _ => Iff.rfl, rfl, fun _ => rfl⟩
    generalize Slots.compact condense_move b (b.num_reqs + removed.length - 1)
      removed.reverse = c at hidx hn hmem hg hrow hlen hvac hrest
    have hcount : n = b.num_reqs := by
      have h1 := Slots.length_reduceOption_of_iff c.req_ids n (by omega) (by simpa [hlen] using hvac)
      rw [← hidx.inverse.length_keys] at h1
      exact h1.symm.trans hn
    subst hcount
    have hlt : ∀ i id, c.req_ids[i]? = some (some id) → i < b.num_reqs := by
      intro i id hi
      by_contra hge
      have hil : i < c.req_ids.length := (List.getElem?_eq_some_iff.mp hi).1
      have := (hvac i).mpr ⟨by omega, by omega⟩
      rw [hi] at this
      simp at this
    have hout : ∀ i, i < b.num_reqs → (c.trim b.num_reqs).row i = c.row i := by
      intro i hi
      ext1 <;> first | rfl | simp [row, trim, hi]
    rw [hrest]
    refine ⟨⟨⟨hidx.inverse.take hlt, ?_⟩, List.nodup_nil, fun i => ?_, ?_⟩, hn, hmem, hg,
      fun id => ?_⟩
    · simp [trim, hidx.length]
    · simp only [trim, List.getElem?_take, List.not_mem_nil, iff_false]
      split
      · rename_i hi
        intro hc
        have := (hvac i).mp hc
        omega
      · simp
    · have hn' : (c.trim b.num_reqs).num_reqs = b.num_reqs := hn
      rw [hn']
      simp [trim]
      omega
    · rw [← hrow id]
      unfold rowOf
      cases hi : c.req_id_to_index.lookup id with
      | none => simp [trim, hi]
      | some i =>
          have := hlt i id ((hidx.inverse id i).mp hi)
          have hi' : (c.trim b.num_reqs).req_id_to_index.lookup id = some i := hi
          rw [hi', Option.map_some, Option.map_some, hout i this]

end Condense

end TTXla.VllmTT.InputBatch
