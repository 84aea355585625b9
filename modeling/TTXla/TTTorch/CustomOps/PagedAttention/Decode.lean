import TTXla.TTTorch.CustomOps.PagedAttention

namespace TTXla.TTTorch.PagedCache

open Tensor

variable {R : Type}

section Reshape

variable {t : Tensor R} {U H D : Nat}

theorem reshape_eq_some {shape : List Nat} {u : Tensor R} :
    reshape t shape = some u ↔ t.shape.prod = shape.prod ∧ u = t.view shape := by
  unfold reshape
  split
  · rename_i h
    rw [Option.some.injEq, eq_comm, and_iff_right h]
  · rename_i h
    simp only [reduceCtorEq, h, false_and]

theorem reshape_query (h : t.shape = [1, U, H, D]) :
    reshape t [U, H, 1, D] = some (t.view [U, H, 1, D]) := by
  refine reshape_eq_some.mpr ⟨?_, rfl⟩
  rw [h]
  simp only [List.prod_cons, List.prod_nil]
  ring

theorem reshape_out (h : t.shape = [U, H, 1, D]) :
    reshape t [1, U, H, D] = some (t.view [1, U, H, D]) := by
  refine reshape_eq_some.mpr ⟨?_, rfl⟩
  rw [h]
  simp only [List.prod_cons, List.prod_nil]
  ring

theorem view_query (h : t.shape = [1, U, H, D]) {u i d : Nat} (hu : u < U) (hi : i < H)
    (hd : d < D) : (t.view [U, H, 1, D]).get [u, i, 0, d] = t.get [0, u, i, d] := by
  refine view_get _ h ?_ ?_
  · simp only [inBounds_cons, inBounds_nil, and_true]
    omega
  · simp only [ravel_cons, ravel_nil, List.prod_cons, List.prod_nil]
    ring

theorem view_out (h : t.shape = [U, H, 1, D]) {u i d : Nat} (hu : u < U) (hi : i < H)
    (hd : d < D) : (t.view [1, U, H, D]).get [0, u, i, d] = t.get [u, i, 0, d] := by
  refine view_get _ h ?_ ?_
  · simp only [inBounds_cons, inBounds_nil, and_true]
    omega
  · simp only [ravel_cons, ravel_nil, List.prod_cons, List.prod_nil]
    ring

end Reshape

section Attention

variable [AddCommMonoid R] [Mul R] (softmax : List R → List R)

theorem matmul_get {t u : Tensor R} {A B L D S : Nat} (ht : t.shape = [A, B, L, D])
    (hu : u.shape = [A, B, D, S]) :
    (t.matmul u).shape = [A, B, L, S] ∧
      ∀ a < A, ∀ b < B, ∀ l < L, ∀ s < S, (t.matmul u).get [a, b, l, s] =
        ∑ k ∈ Finset.range D, t.get [a, b, l, k] * u.get [a, b, k, s] := by
  constructor
  · unfold matmul
    rw [ht, hu]
    show bshape [A, B] [A, B] ++ [L, S] = _
    rw [bshape_self]
    rfl
  · intro a ha b hb l hl s hs
    unfold matmul
    dsimp only
    rw [ht]
    refine Finset.sum_congr rfl fun k hk => ?_
    have hk := Finset.mem_range.mp hk
    change t.bget [a, b, l, k] * u.bget [a, b, k, s] = _
    rw [bget_eq t, bget_eq u]
    · rw [hu]
      simp only [inBounds_cons, inBounds_nil, and_true]
      exact ⟨ha, hb, hk, hs⟩
    · rw [ht]
      simp only [inBounds_cons, inBounds_nil, and_true]
      exact ⟨ha, hb, hl, hk⟩

-- What a query gets of the values: `keys k e` is element `e` of the key at position `k`.
def attend (S D : Nat) (query : Nat → R) (keys : Nat → Nat → R) (values mask : Nat → R)
    (scale : R) : R :=
  let scores := (List.range S).map fun k =>
    (∑ e ∈ Finset.range D, query e * keys k e) * scale + mask k
  ∑ k ∈ Finset.range S, (softmax scores).getD k 0 * values k

theorem attend_congr {S D : Nat} {query query' : Nat → R} {keys keys' : Nat → Nat → R}
    {values values' mask mask' : Nat → R} {scale : R} (hquery : ∀ e < D, query e = query' e)
    (hkeys : ∀ k < S, ∀ e < D, keys k e = keys' k e) (hvalues : ∀ k < S, values k = values' k)
    (hmask : ∀ k < S, mask k = mask' k) :
    attend softmax S D query keys values mask scale =
      attend softmax S D query' keys' values' mask' scale := by
  have hscores : ((List.range S).map fun k =>
        (∑ e ∈ Finset.range D, query e * keys k e) * scale + mask k) =
      (List.range S).map fun k =>
        (∑ e ∈ Finset.range D, query' e * keys' k e) * scale + mask' k := by
    refine List.map_congr_left fun k hk => ?_
    have hk := List.mem_range.mp hk
    rw [hmask k hk, Finset.sum_congr rfl fun e he => ?_]
    rw [hquery e (Finset.mem_range.mp he), hkeys k hk e (Finset.mem_range.mp he)]
  unfold attend
  dsimp only
  rw [hscores]
  exact Finset.sum_congr rfl fun k hk => by rw [hvalues k (Finset.mem_range.mp hk)]

theorem attention_spec {query key value attn_mask : Tensor R} {U H S D mask_heads : Nat}
    (hquery : query.shape = [U, H, 1, D]) (hkey : key.shape = [U, H, S, D])
    (hvalue : value.shape = [U, H, S, D]) (hmask : attn_mask.shape = [U, mask_heads, 1, S])
    (hheads : mask_heads = 1 ∨ mask_heads = H) (scale : R) :
    ∃ out, attention softmax query key value attn_mask scale = some out ∧
      out.shape = [U, H, 1, D] ∧
      ∀ u < U, ∀ i < H, ∀ d < D, out.get [u, i, 0, d] =
        attend softmax S D (fun e => query.get [u, i, 0, e]) (fun k e => key.get [u, i, k, e])
          (fun k => value.get [u, i, k, d]) (fun k => attn_mask.bget [u, i, 0, k]) scale := by
  have htranspose : (key.permute [0, 1, 3, 2]).shape = [U, H, D, S] := by
    unfold permute
    rw [hkey]
    rfl
  obtain ⟨hshape, hproduct⟩ := matmul_get hquery htranspose
  generalize hweight : (query.matmul (key.permute [0, 1, 3, 2])).map (· * scale) = attn_weight
  have hweight_shape : attn_weight.shape = [U, H, 1, S] := hweight ▸ hshape
  have hmasked : (attn_weight + attn_mask).shape = [U, H, 1, S] := by
    show bshape attn_weight.shape attn_mask.shape = _
    rw [hweight_shape, hmask]
    obtain rfl | rfl := hheads
    · simp [bshape, bdim_one]
    · exact bshape_self _
  have hexpands : expands attn_mask.shape attn_weight.shape = true := by
    rw [hweight_shape, hmask]
    obtain rfl | rfl := hheads
    · simp [expands]
    · exact expands_self _
  obtain ⟨hout, hget⟩ := matmul_get (t := softmax_last softmax (attn_weight + attn_mask))
    (u := value) (D := S) (S := D) hmasked hvalue
  refine ⟨_, ?_, hout, fun u hu i hi d hd => ?_⟩
  · unfold attention
    dsimp only
    rw [hweight, if_pos hexpands]
  · rw [hget u hu i hi 0 Nat.zero_lt_one d hd]
    refine Finset.sum_congr rfl fun k hk => ?_
    have hrow : (List.range (last (attn_weight + attn_mask).shape)).map (fun k' =>
          (attn_weight + attn_mask).get (setLast [u, i, 0, k] k')) =
        (List.range S).map fun k' =>
          (∑ e ∈ Finset.range D, query.get [u, i, 0, e] * key.get [u, i, k', e]) * scale +
            attn_mask.bget [u, i, 0, k'] := by
      rw [hmasked]
      refine List.map_congr_left fun k' hk' => ?_
      have hk' : k' < S := List.mem_range.mp hk'
      change attn_weight.bget [u, i, 0, k'] + attn_mask.bget [u, i, 0, k'] = _
      rw [bget_eq attn_weight, ← hweight]
      · show (query.matmul _).get [u, i, 0, k'] * scale + _ = _
        rw [hproduct u hu i hi 0 Nat.zero_lt_one k' hk']
        rfl
      · rw [hweight_shape]
        simp only [inBounds_cons, inBounds_nil, and_true]
        exact ⟨hu, hi, Nat.zero_lt_one, hk'⟩
    change (softmax ((List.range (last (attn_weight + attn_mask).shape)).map _)).getD k 0 * _ = _
    rw [hrow]

end Attention

section Caches

variable {cache : Tensor R} {page_table : Tensor Int}
  {users num_cols num_blocks num_heads block_size head_size : Nat} {page : Nat → Nat → Nat}

theorem user_blocks_spec (hpages : Pages page_table users num_cols num_blocks page)
    (hcache : cache.shape = [num_blocks, num_heads, block_size, head_size]) {user : Nat}
    (huser : user < users) :
    ∃ t, user_blocks cache ((List.range num_cols).map fun col => page_table.get [user, col])
        num_heads (num_cols * block_size) head_size = some t ∧
      ∀ h < num_heads, ∀ s < num_cols * block_size, ∀ d < head_size,
        t.get [h, s, d] = cache.get [page user (s / block_size), h, s % block_size, d] := by
  have hblocks := hpages.mapM_row huser fun col hcol => List.mem_range.mp hcol
  unfold user_blocks
  rw [hcache]
  dsimp only
  rw [hblocks]
  generalize hblock : ((List.range num_cols).map (page user)) = blocks
  have hlen : blocks.length = num_cols := by rw [← hblock, List.length_map, List.length_range]
  generalize hperm : Tensor.permute (⟨blocks.length :: [num_heads, block_size, head_size],
    fun is => cache.get (blocks.getD (is.headD 0) 0 :: is.tail)⟩ : Tensor R) [1, 0, 2, 3] = t
  have hshape : t.shape = [num_heads, num_cols, block_size, head_size] := by
    rw [← hperm, hlen]
    rfl
  have hreshape : reshape t [num_heads, num_cols * block_size, head_size] =
      some (t.view [num_heads, num_cols * block_size, head_size]) := by
    refine reshape_eq_some.mpr ⟨?_, rfl⟩
    rw [hshape]
    simp only [List.prod_cons, List.prod_nil]
    ring
  refine ⟨t.view [num_heads, num_cols * block_size, head_size],
    (congrArg (reshape · _) hperm).trans hreshape, fun h hh s hs d hd => ?_⟩
  · have hpos : 0 < block_size := by
      refine Nat.pos_of_ne_zero ?_
      rintro rfl
      exact Nat.not_lt_zero _ hs
    have hcol : s / block_size < num_cols :=
      Nat.div_lt_of_lt_mul (Nat.mul_comm num_cols block_size ▸ hs)
    have hsplit := Nat.div_add_mod' s block_size
    rw [view_get [h, s / block_size, s % block_size, d] hshape]
    · rw [← hperm]
      change cache.get [blocks.getD (s / block_size) 0, h, s % block_size, d] = _
      rw [← hblock, List.getD_eq_getElem?_getD, List.getElem?_map, List.getElem?_range hcol]
      rfl
    · simp only [inBounds_cons, inBounds_nil, and_true]
      exact ⟨hh, hcol, Nat.mod_lt _ hpos, hd⟩
    · simp only [ravel_cons, ravel_nil, List.prod_cons, List.prod_nil]
      calc _ = h * (num_cols * block_size * head_size) +
            ((s / block_size * block_size + s % block_size) * head_size + d) := by
              rw [hsplit]
              ring
        _ = _ := by ring

theorem user_caches_spec [AddCommMonoid R]
    (hpages : Pages page_table users num_cols num_blocks page)
    (hcache : cache.shape = [num_blocks, num_heads, block_size, head_size]) :
    ∃ t, user_caches cache page_table users num_cols num_heads (num_cols * block_size)
        head_size = some t ∧ t.shape = [users, num_heads, num_cols * block_size, head_size] ∧
      ∀ user < users, ∀ h < num_heads, ∀ s < num_cols * block_size, ∀ d < head_size,
        t.get [user, h, s, d] = cache.get [page user (s / block_size), h, s % block_size, d] := by
  have hsome : ∀ user ∈ List.range users, (user_blocks cache
      ((List.range num_cols).map fun col => page_table.get [user, col]) num_heads
      (num_cols * block_size) head_size).isSome := by
    intro user huser
    obtain ⟨t, ht, -⟩ := user_blocks_spec hpages hcache (List.mem_range.mp huser)
    rw [ht]
    rfl
  obtain ⟨caches, hcaches⟩ := Options.mapM_isSome_of_forall hsome
  unfold user_caches
  rw [hcaches]
  refine ⟨_, rfl, rfl, fun user huser h hh s hs d hd => ?_⟩
  obtain ⟨t, ht, hget⟩ := user_blocks_spec hpages hcache huser
  have hat := (Options.getElem?_of_mapM hcaches).2 user
  rw [List.getElem?_range huser, Option.bind_some, ht] at hat
  change (caches[user]?).elim 0 (fun cache => cache.get [h, s, d]) = _
  rw [hat]
  exact hget h hh s hs d hd

end Caches

section Decode

variable [AddCommMonoid R] [Mul R] (softmax : List R → List R) (neg_inf : R) (inv_sqrt : Nat → R)
  {query key value : Tensor R} {page_table : Tensor Int} {cur_pos_tensor : Tensor Int}
  {users num_cols num_blocks query_heads num_heads block_size head_size : Nat}
  {page : Nat → Nat → Nat}

-- The caches of all users, each of them contiguous.
def gathered (cache : Tensor R) (page : Nat → Nat → Nat)
    (users num_cols num_heads block_size head_size : Nat) : Tensor R where
  shape := [users, num_heads, num_cols * block_size, head_size]
  get := fun is => (gather cache page num_cols num_heads block_size head_size (is.headD 0)).get
    (0 :: is.tail)

omit [Mul R] in
theorem causal_bget {U m S u i k : Nat} (hu : u < U) (hk : k < S) :
    (causal_mask neg_inf [U, m, 1, S] cur_pos_tensor).bget [u, i, 0, k] =
      if slice_start S (cur_pos_tensor.get [u] + 1) ≤ k then neg_inf else 0 := by
  change (if slice_start S (cur_pos_tensor.get [if U = 1 then 0 else u] + 1) ≤
    (if S = 1 then 0 else k) then neg_inf else 0) = _
  rw [bcast_of_lt hu, bcast_of_lt hk]

theorem paged_decode_spec (hpages : Pages page_table users num_cols num_blocks page)
    (hquery : query.shape = [1, users, num_heads, head_size])
    (hkey : key.shape = [num_blocks, num_heads, block_size, head_size])
    (hvalue : value.shape = [num_blocks, num_heads, block_size, head_size])
    (hpos : cur_pos_tensor.shape = [users]) (hheads : 0 < num_heads) (scale : Option R) :
    ∃ out, paged_scaled_dot_product_attention_decode softmax neg_inf inv_sqrt query key value
        page_table true none (some cur_pos_tensor) scale = some out ∧
      out.shape = [1, users, num_heads, head_size] ∧
      ∀ user < users, ∀ h < num_heads, ∀ d < head_size, out.get [0, user, h, d] =
        attend softmax (num_cols * block_size) head_size (fun e => query.get [0, user, h, e])
          (fun k e => key.get [page user (k / block_size), h, k % block_size, e])
          (fun k => value.get [page user (k / block_size), h, k % block_size, d])
          (fun k =>
            if slice_start (num_cols * block_size) (cur_pos_tensor.get [user] + 1) ≤ k then neg_inf
            else 0)
          (scale.getD (inv_sqrt head_size)) := by
  obtain ⟨new_key, hnew_key, hkey_shape, hkey_get⟩ := user_caches_spec hpages hkey
  obtain ⟨new_value, hnew_value, hvalue_shape, hvalue_get⟩ := user_caches_spec hpages hvalue
  have hview : (query.view [users, num_heads, 1, head_size]).shape =
      [users, num_heads, 1, head_size] := rfl
  have hmask : (causal_mask neg_inf [users, 1, 1, num_cols * block_size] cur_pos_tensor).shape =
      [users, 1, 1, num_cols * block_size] := rfl
  obtain ⟨out, hout, hshape, hget⟩ := attention_spec softmax hview hkey_shape hvalue_shape hmask
    (Or.inl rfl) (scale.getD (inv_sqrt head_size))
  refine ⟨out.view [1, users, num_heads, head_size], ?_, rfl, fun user huser h hh d hd => ?_⟩
  · unfold paged_scaled_dot_product_attention_decode
    simp only [guard, Option.isNone_none, or_true, if_true, hkey, hpos, hpages.shape, le_refl,
      hnew_key, hnew_value, reshape_query hquery, if_pos hheads, hout, Option.pure_def,
      Option.bind_eq_bind, Option.bind_some]
    exact reshape_out hshape
  · rw [view_out hshape huser hh hd, hget user huser h hh d hd]
    exact attend_congr softmax (fun e he => view_query hquery huser hh he)
      (fun k hk e he => hkey_get user huser h hh k hk e he)
      (fun k hk => hvalue_get user huser h hh k hk d hd)
      fun k hk => causal_bget neg_inf huser hk

-- The query is read as if it had the heads of the keys.
theorem paged_decode_none (hpages : Pages page_table users num_cols num_blocks page)
    (hquery : query.shape = [1, users, query_heads, head_size])
    (hkey : key.shape = [num_blocks, num_heads, block_size, head_size])
    (hvalue : value.shape = [num_blocks, num_heads, block_size, head_size])
    (hpos : cur_pos_tensor.shape = [users]) (husers : 0 < users) (hsize : 0 < head_size)
    (hne : query_heads ≠ num_heads) (scale : Option R) :
    paged_scaled_dot_product_attention_decode softmax neg_inf inv_sqrt query key value page_table
      true none (some cur_pos_tensor) scale = none := by
  obtain ⟨new_key, hnew_key, -⟩ := user_caches_spec hpages hkey
  obtain ⟨new_value, hnew_value, -⟩ := user_caches_spec hpages hvalue
  have hreshape : reshape query [users, num_heads, 1, head_size] = none := by
    refine if_neg fun hprod => hne ?_
    rw [hquery] at hprod
    simp only [List.prod_cons, List.prod_nil, Nat.mul_one, Nat.one_mul] at hprod
    exact Nat.eq_of_mul_eq_mul_right hsize (Nat.eq_of_mul_eq_mul_left husers hprod)
  unfold paged_scaled_dot_product_attention_decode
  simp only [guard, Option.isNone_none, or_true, if_true, hkey, hpos, hpages.shape, le_refl,
    hnew_key, hnew_value, hreshape, Option.pure_def, Option.bind_eq_bind, Option.bind_some,
    Option.bind_none]

theorem decode_spec {max_seq_len : Nat}
    (hquery : query.shape = [1, users, query_heads, head_size])
    (hkey : key.shape = [users, num_heads, max_seq_len, head_size])
    (hvalue : value.shape = [users, num_heads, max_seq_len, head_size])
    (hpos : cur_pos_tensor.shape = [users]) (hheads : 0 < num_heads)
    (hgroups : query_heads % num_heads = 0) (scale : Option R) :
    ∃ out, scaled_dot_product_attention_decode softmax neg_inf inv_sqrt query key value
        cur_pos_tensor none true scale = some out ∧
      out.shape = [1, users, query_heads, head_size] ∧
      ∀ user < users, ∀ h < query_heads, ∀ d < head_size, out.get [0, user, h, d] =
        attend softmax max_seq_len head_size (fun e => query.get [0, user, h, e])
          (fun k e => key.get [user, h / (query_heads / num_heads), k, e])
          (fun k => value.get [user, h / (query_heads / num_heads), k, d])
          (fun k => if slice_start max_seq_len (cur_pos_tensor.get [user] + 1) ≤ k then neg_inf
            else 0)
          (scale.getD (inv_sqrt head_size)) := by
  have hrepeat : ∀ {t : Tensor R}, t.shape = [users, num_heads, max_seq_len, head_size] →
      (repeat_interleave t 1 (query_heads / num_heads)).shape =
        [users, query_heads, max_seq_len, head_size] := by
    intro t ht
    rw [repeat_interleave, ht]
    show [users, num_heads * (query_heads / num_heads), max_seq_len, head_size] = _
    rw [Nat.mul_div_cancel' (Nat.dvd_of_mod_eq_zero hgroups)]
  have hview : (query.view [users, query_heads, 1, head_size]).shape =
      [users, query_heads, 1, head_size] := rfl
  have hmask : (causal_mask neg_inf [users, query_heads, 1, max_seq_len] cur_pos_tensor).shape =
      [users, query_heads, 1, max_seq_len] := rfl
  obtain ⟨out, hout, hshape, hget⟩ := attention_spec softmax hview (hrepeat hkey) (hrepeat hvalue)
    hmask (Or.inr rfl) (scale.getD (inv_sqrt head_size))
  refine ⟨out.view [1, users, query_heads, head_size], ?_, rfl, fun user huser h hh d hd => ?_⟩
  · unfold scaled_dot_product_attention_decode
    simp only [guard, hquery, hkey, hvalue, hpos, hheads, hgroups, Option.isNone_none, or_true,
      true_and, if_true, le_refl, reshape_query hquery, torch_scaled_dot_product_attention, hview,
      hout, Option.pure_def, Option.bind_eq_bind, Option.bind_some]
    exact reshape_out hshape
  · rw [view_out hshape huser hh hd, hget user huser h hh d hd]
    exact attend_congr softmax (fun e he => view_query hquery huser hh he)
      (fun k hk e he => rfl) (fun k hk => rfl) fun k hk => causal_bget neg_inf huser hk

end Decode

end TTXla.TTTorch.PagedCache
