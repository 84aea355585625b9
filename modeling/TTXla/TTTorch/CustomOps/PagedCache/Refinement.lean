import TTXla.TTTorch.CustomOps.PagedCache
import Mathlib.Algebra.Order.Group.Int
import Mathlib.Data.List.Nodup

namespace TTXla.TTTorch.PagedCache

open Tensor

variable {R : Type}

-- A page table with a page of its own for each column of each user.
structure Pages (page_table : Tensor Int) (users num_cols num_blocks : Nat)
    (page : Nat → Nat → Nat) : Prop where
  shape : page_table.shape = [users, num_cols]
  place : ∀ user < users, ∀ col < num_cols,
    place num_blocks (page_table.get [user, col]) = some (page user col)
  injective : ∀ user < users, ∀ col < num_cols, ∀ user' < users, ∀ col' < num_cols,
    page user col = page user' col' → user = user' ∧ col = col'

section Blocks

variable {cache value : Tensor R} {num_blocks num_heads block_size head_size len : Nat}

variable (value len) in
theorem assign_blocks_spec (hcache : cache.shape = [num_blocks, num_heads, block_size, head_size])
    {rows : List Int} {blocks : List Nat} (hblocks : rows.mapM (place num_blocks) = some blocks)
    (hnodup : blocks.Nodup) (hvalue : value.shape = [blocks.length, num_heads, len, head_size]) :
    ∃ cache', assign_blocks cache value rows len = some cache' ∧ cache'.shape = cache.shape ∧
      (∀ block h o d, (o < len → block ∉ blocks) →
        cache'.get [block, h, o, d] = cache.get [block, h, o, d]) ∧
      ∀ j < blocks.length, ∀ h < num_heads, ∀ o < len, ∀ d < head_size,
        cache'.get [blocks.getD j 0, h, o, d] = value.get [j, h, o, d] := by
  obtain ⟨cache', hassign, hshape, hget⟩ := exists_assign cache hvalue fun is =>
    if is.getD 2 0 < len then (lastIdx blocks (is.getD 0 0)).map (is.set 0) else none
  refine ⟨cache', ?_, hshape, ?_, ?_⟩
  · unfold assign_blocks
    rw [hcache]
    dsimp only
    rw [hblocks]
    exact hassign
  · intro block h o d hout
    rw [hget]
    change (if o < len then (lastIdx blocks block).map _ else none).elim _ _ = _
    by_cases ho : o < len
    · rw [if_pos ho, lastIdx_eq_none.mpr (hout ho)]
      rfl
    · rw [if_neg ho]
      rfl
  · intro j hj h hh o ho d hd
    have hsome : blocks[j]? = some (blocks.getD j 0) := by
      rw [List.getD_eq_getElem?_getD, List.getElem?_eq_getElem hj, Option.getD_some]
    have hlast := lastIdx_of_unique hsome fun i hi =>
      ((List.getElem?_inj hj hnodup).mp (hsome.trans hi.symm)).symm
    rw [hget]
    change (if o < len then (lastIdx blocks (blocks.getD j 0)).map _ else none).elim _ _ = _
    rw [if_pos ho, hlast]
    refine bget_eq value ?_
    rw [hvalue]
    simp only [List.set_cons_zero, inBounds_cons, inBounds_nil, and_true]
    exact ⟨hj, hh, ho, hd⟩

-- The first blocks, once the sequence has been cut into them.
theorem first_blocks_get {fill_value : Tensor R} {n : Nat}
    (hshape : fill_value.shape = [1, num_heads, n * block_size, head_size]) {j h o d : Nat}
    (hj : j < n) (hh : h < num_heads) (ho : o < block_size) (hd : d < head_size) :
    (((fill_value.view [1, num_heads, n, block_size, head_size]).permute [2, 1, 0, 3, 4]).view
        [n, num_heads, block_size, head_size]).get [j, h, o, d] =
      fill_value.get [0, h, j * block_size + o, d] := by
  have hdims : ((fill_value.view [1, num_heads, n, block_size, head_size]).permute
      [2, 1, 0, 3, 4]).shape = [n, num_heads, 1, block_size, head_size] := rfl
  rw [view_get [j, h, 0, o, d] hdims]
  · show (fill_value.view _).get [0, h, j, o, d] = _
    refine view_get _ hshape ?_ ?_
    · have hpos := group_lt hj ho
      simp only [inBounds_cons, inBounds_nil, and_true]
      omega
    · simp only [ravel_cons, ravel_nil, List.prod_cons, List.prod_nil]
      ring
  · simp only [inBounds_cons, inBounds_nil, and_true]
    omega
  · simp only [ravel_cons, ravel_nil, List.prod_cons, List.prod_nil]
    ring

end Blocks

section Fill

variable {page_table : Tensor Int} {users num_cols num_blocks : Nat} {page : Nat → Nat → Nat}

theorem Pages.mapM_row (h : Pages page_table users num_cols num_blocks page) {user : Nat}
    (huser : user < users) {cols : List Nat} (hcols : ∀ col ∈ cols, col < num_cols) :
    (cols.map fun col => page_table.get [user, col]).mapM (Tensor.place num_blocks) =
      some (cols.map (page user)) := by
  rw [List.mapM_map]
  exact Options.mapM_eq_some_map fun col hcol => h.place user huser col (hcols col hcol)

theorem Pages.nodup_row (h : Pages page_table users num_cols num_blocks page) {user : Nat}
    (huser : user < users) {cols : List Nat} (hcols : ∀ col ∈ cols, col < num_cols)
    (hnodup : cols.Nodup) : (cols.map (page user)).Nodup :=
  hnodup.map_on fun col hcol col' hcol' heq =>
    (h.injective user huser col (hcols col hcol) user huser col' (hcols col' hcol') heq).2

variable {cache fill_value : Tensor R} {num_heads block_size head_size fill_seq_len user : Nat}

-- The write to the blocks of some columns of a user's row.
theorem assign_row_spec (hpages : Pages page_table users num_cols num_blocks page)
    (huser : user < users) (hcache : cache.shape = [num_blocks, num_heads, block_size, head_size])
    (value : Tensor R) {start n len : Nat} (hcols : start + n ≤ num_cols)
    (hvalue : value.shape = [n, num_heads, len, head_size]) :
    ∃ cache', assign_blocks cache value
        ((((List.range num_cols).map fun col => page_table.get [user, col]).drop start).take n)
        len = some cache' ∧ cache'.shape = cache.shape ∧
      (∀ block h o d, (∀ col < num_cols, block ≠ page user col) →
        cache'.get [block, h, o, d] = cache.get [block, h, o, d]) ∧
      ∀ col < num_cols, ∀ h < num_heads, ∀ o < block_size, ∀ d < head_size,
        cache'.get [page user col, h, o, d] =
          if start ≤ col ∧ col < start + n ∧ o < len then value.get [col - start, h, o, d]
          else cache.get [page user col, h, o, d] := by
  have hrange : ((List.range num_cols).drop start).take n = List.range' start n := by
    rw [List.range_eq_range', List.drop_range', List.take_range'_of_length_ge (by omega),
      Nat.mul_one, Nat.zero_add]
  have hmem : ∀ col ∈ List.range' start n, col < num_cols := by
    intro col hcol
    rw [List.mem_range'_1] at hcol
    omega
  have hblocks := hpages.mapM_row huser hmem
  have hnodup := hpages.nodup_row huser hmem List.nodup_range'
  obtain ⟨cache', hassign, hshape, hkept, hget⟩ := assign_blocks_spec value len hcache hblocks
    hnodup (by rw [hvalue, List.length_map, List.length_range'])
  rw [List.length_map, List.length_range'] at hget
  refine ⟨cache', ?_, hshape, ?_, ?_⟩
  · rw [← List.map_drop, ← List.map_take, hrange]
    exact hassign
  · intro block h o d hblock
    refine hkept block h o d fun _ hin => ?_
    obtain ⟨col, hcol, heq⟩ := List.mem_map.mp hin
    exact hblock col (hmem col hcol) heq.symm
  · intro col hcol h hh o ho d hd
    split
    · rename_i hin
      have hat : ((List.range' start n).map (page user)).getD (col - start) 0 = page user col := by
        rw [List.getD_eq_getElem?_getD, List.getElem?_map, List.getElem?_range' (by omega),
          Nat.one_mul, Nat.add_sub_cancel' hin.1]
        rfl
      rw [← hat]
      exact hget (col - start) (by omega) h hh o hin.2.2 d hd
    · rename_i hout
      refine hkept _ h o d fun hlen hin => hout ?_
      obtain ⟨col', hcol', heq⟩ := List.mem_map.mp hin
      obtain ⟨-, rfl⟩ := hpages.injective user huser col' (hmem col' hcol') user huser col hcol heq
      rw [List.mem_range'_1] at hcol'
      exact ⟨hcol'.1, hcol'.2, hlen⟩

theorem fill_first_blocks_spec (hpages : Pages page_table users num_cols num_blocks page)
    (huser : user < users) (hcache : cache.shape = [num_blocks, num_heads, block_size, head_size])
    (hblock : 0 < block_size) (hfill : fill_value.shape = [1, num_heads, fill_seq_len, head_size])
    (hlen : fill_seq_len ≤ num_cols * block_size) :
    ∃ cache', fill_first_blocks cache fill_value
        ((List.range num_cols).map fun col => page_table.get [user, col]) num_heads fill_seq_len
        block_size head_size = some cache' ∧ cache'.shape = cache.shape ∧
      (∀ block h o d, (∀ col < num_cols, block ≠ page user col) →
        cache'.get [block, h, o, d] = cache.get [block, h, o, d]) ∧
      ∀ col < num_cols, ∀ h < num_heads, ∀ o < block_size, ∀ d < head_size,
        cache'.get [page user col, h, o, d] =
          if col < fill_seq_len / block_size then fill_value.get [0, h, col * block_size + o, d]
          else cache.get [page user col, h, o, d] := by
  unfold fill_first_blocks
  dsimp only
  generalize hn : fill_seq_len / block_size = n
  generalize hpart : fill_seq_len % block_size = part
  have hsplit : fill_seq_len = n * block_size + part := by
    rw [← hn, ← hpart, Nat.mul_comm, Nat.div_add_mod]
  by_cases hpos : 0 < n
  · rw [if_pos hpos]
    generalize hfirst : (if 0 < part then fill_value.narrow 2 0 (fill_seq_len - part)
      else fill_value) = first
    have hshape : first.shape = [1, num_heads, n * block_size, head_size] := by
      rw [← hfirst]
      split
      · rw [narrow, hfill, hsplit, Nat.add_sub_cancel]
        rfl
      · rw [hfill]
        congr 3
        omega
    have hget : ∀ h t d, first.get [0, h, t, d] = fill_value.get [0, h, t, d] := by
      intro h t d
      rw [← hfirst]
      split
      · show fill_value.get [0, h, 0 + t, d] = _
        rw [Nat.zero_add]
      · rfl
    have hcols : 0 + n ≤ num_cols := by
      rw [Nat.zero_add]
      exact Nat.le_of_mul_le_mul_right (by omega) hblock
    obtain ⟨cache', hassign, hshape', hkept, hget'⟩ := assign_row_spec hpages huser hcache
      (((first.view [1, num_heads, n, block_size, head_size]).permute
        [2, 1, 0, 3, 4]).view [n, num_heads, block_size, head_size]) hcols rfl
    refine ⟨cache', ?_, hshape', hkept, fun col hcol h hh o ho d hd => ?_⟩
    · have hprod : first.shape.prod = [1, num_heads, n, block_size, head_size].prod := by
        rw [hshape]
        simp only [List.prod_cons, List.prod_nil]
        ring
      rw [guard, if_pos hprod]
      exact hassign
    · rw [hget' col hcol h hh o ho d hd]
      by_cases hin : col < n
      · rw [if_pos ⟨Nat.zero_le _, by omega, ho⟩, if_pos hin, Nat.sub_zero,
          first_blocks_get hshape hin hh ho hd, hget]
      · rw [if_neg (by omega), if_neg hin]
  · rw [if_neg hpos]
    refine ⟨cache, rfl, rfl, fun _ _ _ _ _ => rfl, fun col hcol h hh o ho d hd => ?_⟩
    rw [if_neg (by omega)]

theorem fill_final_block_spec (hpages : Pages page_table users num_cols num_blocks page)
    (huser : user < users) (hcache : cache.shape = [num_blocks, num_heads, block_size, head_size])
    (hfill : fill_value.shape = [1, num_heads, fill_seq_len, head_size])
    (hlen : fill_seq_len ≤ num_cols * block_size) :
    ∃ cache', fill_final_block cache fill_value
        ((List.range num_cols).map fun col => page_table.get [user, col]) fill_seq_len
        block_size = some cache' ∧ cache'.shape = cache.shape ∧
      (∀ block h o d, (∀ col < num_cols, block ≠ page user col) →
        cache'.get [block, h, o, d] = cache.get [block, h, o, d]) ∧
      ∀ col < num_cols, ∀ h < num_heads, ∀ o < block_size, ∀ d < head_size,
        cache'.get [page user col, h, o, d] =
          if col = fill_seq_len / block_size ∧ o < fill_seq_len % block_size then
            fill_value.get [0, h, col * block_size + o, d]
          else cache.get [page user col, h, o, d] := by
  unfold fill_final_block
  dsimp only
  generalize hn : fill_seq_len / block_size = n
  generalize hpart : fill_seq_len % block_size = part
  have hsplit : fill_seq_len = n * block_size + part := by
    rw [← hn, ← hpart, Nat.mul_comm, Nat.div_add_mod]
  by_cases hpos : 0 < part
  · rw [if_pos hpos]
    have hcols : n + 1 ≤ num_cols := Nat.lt_of_mul_lt_mul_right (a := block_size) (by omega)
    have hvalue : (fill_value.narrow 2 (fill_seq_len - part) part).shape =
        [1, num_heads, part, head_size] := by
      rw [narrow, hfill]
      rfl
    obtain ⟨cache', hassign, hshape, hkept, hget⟩ :=
      assign_row_spec hpages huser hcache _ hcols hvalue
    refine ⟨cache', hassign, hshape, hkept, fun col hcol h hh o ho d hd => ?_⟩
    rw [hget col hcol h hh o ho d hd]
    by_cases hin : col = n ∧ o < part
    · rw [if_pos (by omega), if_pos hin]
      show fill_value.get [col - n, h, fill_seq_len - part + o, d] = _
      rw [hin.1, Nat.sub_self, hsplit, Nat.add_sub_cancel]
    · rw [if_neg (by omega), if_neg hin]
  · rw [if_neg hpos]
    refine ⟨cache, rfl, rfl, fun _ _ _ _ _ => rfl, fun col hcol h hh o ho d hd => ?_⟩
    rw [if_neg (by omega)]

theorem filled_iff (col : Nat) {o : Nat} (len : Nat) (ho : o < block_size) :
    col * block_size + o < len ↔
      col < len / block_size ∨ col = len / block_size ∧ o < len % block_size := by
  have hsplit := Nat.div_add_mod len block_size
  rw [Nat.mul_comm] at hsplit
  have hmod := Nat.mod_lt len (Nat.zero_lt_of_lt ho)
  obtain hlt | rfl | hgt := Nat.lt_trichotomy col (len / block_size)
  · have := group_lt hlt ho
    omega
  · omega
  · have := Nat.mul_le_mul_right block_size hgt
    rw [Nat.succ_mul] at this
    omega

-- A fill writes the sequence to the columns of its user, from the first on.
theorem paged_fill_cache_spec (hpages : Pages page_table users num_cols num_blocks page)
    (hcache : cache.shape = [num_blocks, num_heads, block_size, head_size])
    (hblock : 0 < block_size) (hfill : fill_value.shape = [1, num_heads, fill_seq_len, head_size])
    (hlen : fill_seq_len ≤ num_cols * block_size) {batch_idx : Option Int}
    (hplace : Tensor.place users (batch_idx.getD 0) = some user) :
    ∃ cache', paged_fill_cache cache fill_value page_table batch_idx = some cache' ∧
      cache'.shape = cache.shape ∧
      (∀ block h o d, (∀ col < num_cols, block ≠ page user col) →
        cache'.get [block, h, o, d] = cache.get [block, h, o, d]) ∧
      ∀ col < num_cols, ∀ h < num_heads, ∀ o < block_size, ∀ d < head_size,
        cache'.get [page user col, h, o, d] =
          if col * block_size + o < fill_seq_len then
            fill_value.get [0, h, col * block_size + o, d]
          else cache.get [page user col, h, o, d] := by
  have huser := (Tensor.place_eq_some.mp hplace).1
  obtain ⟨cache₁, hfirst, hshape₁, hkept₁, hget₁⟩ :=
    fill_first_blocks_spec hpages huser hcache hblock hfill hlen
  obtain ⟨cache₂, hfinal, hshape₂, hkept₂, hget₂⟩ :=
    fill_final_block_spec hpages huser (hshape₁.trans hcache) hfill hlen
  refine ⟨cache₂, ?_, hshape₂.trans hshape₁, ?_, ?_⟩
  · unfold paged_fill_cache
    rw [hcache, hfill, hpages.shape]
    simp only [guard, if_pos hblock, hplace, Option.pure_def, Option.bind_eq_bind,
      Option.bind_some, hfirst, hfinal]
  · intro block h o d hout
    rw [hkept₂ block h o d hout, hkept₁ block h o d hout]
  · intro col hcol h hh o ho d hd
    rw [hget₂ col hcol h hh o ho d hd, hget₁ col hcol h hh o ho d hd]
    have hin := filled_iff col fill_seq_len ho
    by_cases hfirst : col < fill_seq_len / block_size
    · rw [if_neg (by omega), if_pos hfirst, if_pos (hin.mpr (Or.inl hfirst))]
    · by_cases hlast : col = fill_seq_len / block_size ∧ o < fill_seq_len % block_size
      · rw [if_pos hlast, if_pos (hin.mpr (Or.inr hlast))]
      · rw [if_neg hlast, if_neg hfirst, if_neg fun h => (hin.mp h).elim hfirst hlast]

end Fill

section Update

variable {page_table : Tensor Int} {users num_cols num_blocks : Nat} {page : Nat → Nat → Nat}
  {cache fill_value : Tensor R} {update_indices : Tensor Int}
  {num_heads block_size head_size num_users fill_heads : Nat}

-- The position of an index in the cache of a user, and its column and offset.
theorem place_split {i : Int} {position : Nat}
    (h : Tensor.place (num_cols * block_size) i = some position) :
    0 < block_size ∧ Tensor.place num_cols (i / block_size) = some (position / block_size) ∧
      (i % block_size).toNat = position % block_size := by
  obtain ⟨hlt, hi⟩ := Tensor.place_eq_some.mp h
  have hblock : 0 < block_size := by
    refine Nat.pos_of_ne_zero ?_
    rintro rfl
    exact Nat.not_lt_zero _ hlt
  have hcol := Nat.div_lt_of_lt_mul (Nat.mul_comm num_cols block_size ▸ hlt)
  have hne : (block_size : Int) ≠ 0 := by omega
  rw [Nat.cast_mul] at hi
  obtain rfl | hneg := hi
  · exact ⟨hblock, Tensor.place_eq_some.mpr ⟨hcol, Or.inl (Int.natCast_ediv _ _).symm⟩,
      by rw [← Int.natCast_emod, Int.toNat_natCast]⟩
  · have hdiv : (position / block_size : Nat) = i / block_size + num_cols := by
      rw [Int.natCast_ediv, ← hneg, Int.add_mul_ediv_right _ _ hne]
    have hmod : (position % block_size : Nat) = i % block_size := by
      rw [Int.natCast_emod, ← hneg, Int.add_mul_emod_self_right]
    exact ⟨hblock, Tensor.place_eq_some.mpr ⟨hcol, Or.inr hdiv.symm⟩,
      by rw [← hmod, Int.toNat_natCast]⟩

theorem paged_update_cache_spec (hpages : Pages page_table users num_cols num_blocks page)
    (hcache : cache.shape = [num_blocks, num_heads, block_size, head_size])
    (hfill : fill_value.shape = [1, num_users, fill_heads, head_size])
    (hheads : num_heads ≤ fill_heads) (hupdate : update_indices.shape = [num_users])
    (husers : num_users ≤ users) {position : Nat → Nat}
    (hplace : ∀ user < num_users,
      Tensor.place (num_cols * block_size) (update_indices.get [user]) = some (position user)) :
    ∃ cache', paged_update_cache cache fill_value update_indices page_table = some cache' ∧
      cache'.shape = cache.shape ∧
      (∀ block h o d, (∀ user < users, ∀ col < num_cols, block ≠ page user col) →
        cache'.get [block, h, o, d] = cache.get [block, h, o, d]) ∧
      ∀ user < users, ∀ col < num_cols, ∀ h < num_heads, ∀ o < block_size, ∀ d < head_size,
        cache'.get [page user col, h, o, d] =
          if user < num_users ∧ col * block_size + o = position user then
            fill_value.get [0, user, h, d]
          else cache.get [page user col, h, o, d] := by
  have hcol : ∀ {user : Nat}, user < num_users → position user / block_size < num_cols :=
    fun huser => (Tensor.place_eq_some.mp (place_split (hplace _ huser)).2.1).1
  have htargets : (List.range num_users).mapM (fun user => do
      guard (0 < block_size)
      let update_index := update_indices.get [user]
      let row ← Tensor.place users user
      let col ← Tensor.place num_cols (update_index / block_size)
      let block ← Tensor.place num_blocks (page_table.get [row, col])
      return (block, (update_index % block_size).toNat)) =
      some ((List.range num_users).map fun user =>
        (page user (position user / block_size), position user % block_size)) := by
    refine Options.mapM_eq_some_map fun user hmem => ?_
    have huser := List.mem_range.mp hmem
    obtain ⟨hblock, hcol, hoffset⟩ := place_split (hplace user huser)
    have hrow : Tensor.place users (user : Int) = some user :=
      Tensor.place_eq_some.mpr ⟨by omega, Or.inl rfl⟩
    have hpage := hpages.place user (by omega) _ (Tensor.place_eq_some.mp hcol).1
    simp only [guard, if_pos hblock, hrow, hcol, hpage, hoffset, Option.pure_def,
      Option.bind_eq_bind, Option.bind_some]
  generalize htargets' : (List.range num_users).map (fun user =>
    (page user (position user / block_size), position user % block_size)) = targets at htargets
  have hget_targets : ∀ {user : Nat}, user < num_users → targets[user]? =
      some (page user (position user / block_size), position user % block_size) := by
    intro user huser
    rw [← htargets', List.getElem?_map, List.getElem?_range huser]
    rfl
  have hunique : ∀ {user : Nat}, user < num_users → ∀ j, targets[j]? =
      some (page user (position user / block_size), position user % block_size) → j = user := by
    intro user huser j hj
    have hlt : j < num_users := by
      have hlen := (List.getElem?_eq_some_iff.mp hj).1
      rwa [← htargets', List.length_map, List.length_range] at hlen
    rw [hget_targets hlt, Option.some.injEq, Prod.mk.injEq] at hj
    exact (hpages.injective j (by omega) _ (hcol hlt) user (by omega) _ (hcol huser) hj.1).1
  have hview : (⟨[num_users, min num_heads fill_heads, head_size],
      fun is => fill_value.get (0 :: is)⟩ : Tensor R).shape =
      [num_users, num_heads, head_size] := by
    rw [Nat.min_eq_left hheads]
  obtain ⟨cache', hassign, hshape, hget⟩ := exists_assign cache hview fun is =>
      (lastIdx targets (is.getD 0 0, is.getD 2 0)).map fun user => [user, is.getD 1 0, is.getD 3 0]
  refine ⟨cache', ?_, hshape, ?_, ?_⟩
  · unfold paged_update_cache
    rw [hcache, hfill, hupdate, hpages.shape]
    dsimp only
    rw [htargets, guard, if_pos Nat.zero_lt_one]
    exact hassign
  · intro block h o d hout
    rw [hget]
    change ((lastIdx targets (block, o)).map _).elim _ _ = _
    have hnone : (block, o) ∉ targets := by
      intro hmem
      rw [← htargets'] at hmem
      obtain ⟨user, huser, heq⟩ := List.mem_map.mp hmem
      have hlt := List.mem_range.mp huser
      exact hout user (by omega) _ (hcol hlt) (congrArg Prod.fst heq).symm
    rw [lastIdx_eq_none.mpr hnone]
    rfl
  · intro user huser col hcol' h hh o ho d hd
    rw [hget]
    change ((lastIdx targets (page user col, o)).map _).elim _ _ = _
    split
    · rename_i hat
      have hsplit : position user / block_size = col ∧ position user % block_size = o := by
        refine (Nat.div_mod_unique (Nat.zero_lt_of_lt ho)).mpr ⟨?_, ho⟩
        rw [← hat.2, Nat.add_comm, Nat.mul_comm]
      have hlast := lastIdx_of_unique (hget_targets hat.1) (hunique hat.1)
      rw [hsplit.1, hsplit.2] at hlast
      rw [hlast]
      have hin : InBounds [user, h, d] [num_users, min num_heads fill_heads, head_size] := by
        simp only [inBounds_cons, inBounds_nil, and_true]
        omega
      exact bget_eq _ hin
    · rename_i hat
      have hnone : (page user col, o) ∉ targets := by
        intro hmem
        rw [← htargets'] at hmem
        obtain ⟨user', huser', heq⟩ := List.mem_map.mp hmem
        have hlt := List.mem_range.mp huser'
        rw [Prod.mk.injEq] at heq
        obtain ⟨rfl, rfl⟩ :=
          hpages.injective user' (by omega) _ (hcol hlt) user huser col hcol' heq.1
        exact hat ⟨hlt, heq.2 ▸ Nat.div_add_mod' _ _⟩
      rw [lastIdx_eq_none.mpr hnone]
      rfl

end Update

section Run

inductive Call (R : Type) where
  | fill (fill_value : Tensor R) (batch_idx : Option Int)
  | update (fill_value : Tensor R) (update_indices : Tensor Int)

def paged_call (page_table : Tensor Int) (cache : Tensor R) : Call R → Option (Tensor R)
  | .fill fill_value batch_idx => paged_fill_cache cache fill_value page_table batch_idx
  | .update fill_value update_indices =>
      paged_update_cache cache fill_value update_indices page_table

-- What a user's cache gets of the tokens of all users.
def user_token (fill_value : Tensor R) (num_heads head_size user : Nat) : Tensor R where
  shape := [1, num_heads, 1, head_size]
  get := fun is => fill_value.get [0, user, is.getD 1 0, is.getD 3 0]

def update_user (num_heads head_size : Nat) (fill_value : Tensor R) (update_indices : Tensor Int)
    (caches : Nat → Tensor R) (user : Nat) : Option (Nat → Tensor R) := do
  let cache ← update_cache (caches user) (user_token fill_value num_heads head_size user)
    ⟨[1], fun _ => update_indices.get [user]⟩ none
  return Function.update caches user cache

-- The same call on caches of the users, each of them contiguous.
def contiguous_call (users num_heads head_size : Nat) (caches : Nat → Tensor R) :
    Call R → Option (Nat → Tensor R)
  | .fill fill_value batch_idx => do
      let user ← place users (batch_idx.getD 0)
      let cache ← fill_cache (caches user) fill_value none
      return Function.update caches user cache
  | .update fill_value update_indices =>
      (List.range (update_indices.shape.headD 0)).foldlM
        (update_user num_heads head_size fill_value update_indices) caches

-- The calls whose tensors have the sizes of the caches, and that stay within them.
def Call.Fits (users num_heads max_seq_len head_size : Nat) : Call R → Prop
  | .fill fill_value batch_idx =>
      (∃ fill_seq_len ≤ max_seq_len, fill_value.shape = [1, num_heads, fill_seq_len, head_size]) ∧
        (place users (batch_idx.getD 0)).isSome
  | .update fill_value update_indices =>
      ∃ num_users ≤ users, ∃ fill_heads ≥ num_heads,
        fill_value.shape = [1, num_users, fill_heads, head_size] ∧
        update_indices.shape = [num_users] ∧
        ∀ user < num_users, (place max_seq_len (update_indices.get [user])).isSome

-- The blocks of a user in a row.
def gather (cache : Tensor R) (page : Nat → Nat → Nat)
    (num_cols num_heads block_size head_size user : Nat) : Tensor R where
  shape := [1, num_heads, num_cols * block_size, head_size]
  get := fun is => cache.get
    [page user (is.getD 2 0 / block_size), is.getD 1 0, is.getD 2 0 % block_size, is.getD 3 0]

variable {page_table : Tensor Int} {users num_cols num_blocks : Nat} {page : Nat → Nat → Nat}
  {num_heads block_size head_size max_seq_len : Nat}

theorem fill_cache_spec {cache fill_value : Tensor R} {fill_seq_len : Nat}
    (hcache : cache.shape = [1, num_heads, max_seq_len, head_size])
    (hfill : fill_value.shape = [1, num_heads, fill_seq_len, head_size])
    (hlen : fill_seq_len ≤ max_seq_len) :
    ∃ cache', fill_cache cache fill_value none = some cache' ∧ cache'.shape = cache.shape ∧
      ∀ h < num_heads, ∀ t, ∀ d < head_size, cache'.get [0, h, t, d] =
        if t < fill_seq_len then fill_value.get [0, h, t, d] else cache.get [0, h, t, d] := by
  obtain ⟨cache', hassign, hshape, hget⟩ := exists_assign cache hfill fun is =>
    if is.getD 2 0 < fill_seq_len then some is else none
  refine ⟨cache', ?_, hshape, fun h hh t d hd => ?_⟩
  · unfold fill_cache
    rw [hcache, hfill]
    simp only [guard, if_pos hlen]
    exact hassign
  · rw [hget]
    change (if t < fill_seq_len then some [0, h, t, d] else none).elim _ _ = _
    split
    · rename_i ht
      refine bget_eq fill_value ?_
      rw [hfill]
      simp only [inBounds_cons, inBounds_nil, and_true]
      omega
    · rfl

theorem update_cache_spec {cache fill_value : Tensor R} {cache_position : Tensor Int}
    {position : Nat} (hcache : cache.shape = [1, num_heads, max_seq_len, head_size])
    (hfill : fill_value.shape = [1, num_heads, 1, head_size])
    (hshape : cache_position.shape = [1])
    (hplace : place max_seq_len (cache_position.get [0]) = some position) :
    ∃ cache', update_cache cache fill_value cache_position none = some cache' ∧
      cache'.shape = cache.shape ∧
      ∀ h < num_heads, ∀ t, ∀ d < head_size, cache'.get [0, h, t, d] =
        if t = position then fill_value.get [0, h, 0, d] else cache.get [0, h, t, d] := by
  obtain ⟨cache', hassign, hshape', hget⟩ := exists_assign cache hfill fun is =>
    if is.getD 2 0 = position then some (is.set 2 0) else none
  refine ⟨cache', ?_, hshape', fun h hh t d hd => ?_⟩
  · unfold update_cache
    rw [hcache, hfill]
    simp only [guard, if_pos hshape, hplace]
    exact hassign
  · rw [hget]
    change (if t = position then some [0, h, 0, d] else none).elim _ _ = _
    split
    · refine bget_eq fill_value ?_
      rw [hfill]
      simp only [inBounds_cons, inBounds_nil, and_true]
      omega
    · rfl

-- The users are updated one after the other.
theorem update_users_spec (fill_value : Tensor R) {update_indices : Tensor Int}
    {caches : Nat → Tensor R} {num_users : Nat} {position : Nat → Nat}
    (hcaches : ∀ user < num_users,
      (caches user).shape = [1, num_heads, max_seq_len, head_size])
    (hplace : ∀ user < num_users,
      place max_seq_len (update_indices.get [user]) = some (position user)) :
    ∃ caches', (List.range num_users).foldlM
        (update_user num_heads head_size fill_value update_indices) caches = some caches' ∧
      (∀ user, (caches' user).shape = (caches user).shape) ∧
      ∀ user, ∀ h < num_heads, ∀ t, ∀ d < head_size, (caches' user).get [0, h, t, d] =
        if user < num_users ∧ t = position user then fill_value.get [0, user, h, d]
        else (caches user).get [0, h, t, d] := by
  induction num_users with
  | zero =>
      refine ⟨caches, rfl, fun _ => rfl, fun user h _ t d _ => ?_⟩
      rw [if_neg (by omega)]
  | succ n ih =>
      obtain ⟨caches', hrun, hshape, hget⟩ := ih (fun user h => hcaches user (by omega))
        fun user h => hplace user (by omega)
      have htoken : (user_token fill_value num_heads head_size n).shape =
          [1, num_heads, 1, head_size] := rfl
      have hposition : (⟨[1], fun _ => update_indices.get [n]⟩ : Tensor Int).shape = [1] := rfl
      obtain ⟨cache', hupdate, hshape', hget'⟩ := update_cache_spec
        ((hshape n).trans (hcaches n (Nat.lt_succ_self n))) htoken hposition
        (hplace n (Nat.lt_succ_self n))
      refine ⟨Function.update caches' n cache', ?_, fun user => ?_, fun user h hh t d hd => ?_⟩
      · rw [List.range_succ, List.foldlM_append, hrun, Option.bind_eq_bind, Option.bind_some,
          List.foldlM_cons, update_user, hupdate]
        rfl
      · by_cases huser : user = n
        · rw [huser, Function.update_self, hshape', hshape]
        · rw [Function.update_of_ne huser, hshape]
      · by_cases huser : user = n
        · subst huser
          rw [Function.update_self, hget' h hh t d hd, hget user h hh t d hd]
          by_cases ht : t = position user
          · rw [if_pos ht, if_pos ⟨Nat.lt_succ_self _, ht⟩]
            rfl
          · rw [if_neg ht, if_neg (by omega), if_neg (by omega)]
        · rw [Function.update_of_ne huser, hget user h hh t d hd]
          by_cases ht : user < n ∧ t = position user
          · rw [if_pos ht, if_pos ⟨by omega, ht.2⟩]
          · rw [if_neg ht, if_neg (by omega)]

-- The pages hold what the caches of the users hold.
structure Simulates (users num_cols num_blocks num_heads block_size head_size : Nat)
    (page : Nat → Nat → Nat) (cache : Tensor R) (caches : Nat → Tensor R) : Prop where
  shape : cache.shape = [num_blocks, num_heads, block_size, head_size]
  user_shape : ∀ user < users,
    (caches user).shape = [1, num_heads, num_cols * block_size, head_size]
  get : ∀ user < users, ∀ col < num_cols, ∀ h < num_heads, ∀ o < block_size, ∀ d < head_size,
    cache.get [page user col, h, o, d] = (caches user).get [0, h, col * block_size + o, d]

variable {cache : Tensor R} {caches : Nat → Tensor R} {call : Call R}

theorem call_simulates (hpages : Pages page_table users num_cols num_blocks page)
    (hblock : 0 < block_size)
    (h : Simulates users num_cols num_blocks num_heads block_size head_size page cache caches)
    (hfits : call.Fits users num_heads (num_cols * block_size) head_size) :
    ∃ cache' caches', paged_call page_table cache call = some cache' ∧
      contiguous_call users num_heads head_size caches call = some caches' ∧
      Simulates users num_cols num_blocks num_heads block_size head_size page cache' caches' ∧
      ∀ block h o d, (∀ user < users, ∀ col < num_cols, block ≠ page user col) →
        cache'.get [block, h, o, d] = cache.get [block, h, o, d] := by
  cases call with
  | fill fill_value batch_idx =>
      obtain ⟨⟨fill_seq_len, hlen, hfill⟩, hplace⟩ := hfits
      obtain ⟨user, hplace⟩ := Option.isSome_iff_exists.mp hplace
      have huser := (place_eq_some.mp hplace).1
      obtain ⟨cache', hcall, hshape, hkept, hget⟩ :=
        paged_fill_cache_spec hpages h.shape hblock hfill hlen hplace
      obtain ⟨user_cache, hcall', hshape', hget'⟩ :=
        fill_cache_spec (h.user_shape user huser) hfill hlen
      refine ⟨cache', Function.update caches user user_cache, hcall, ?_, ⟨hshape.trans h.shape,
        fun user' huser' => ?_, fun user' huser' col hcol i hi o ho d hd => ?_⟩,
        fun block i o d hout => hkept block i o d (hout user huser)⟩
      · rw [contiguous_call, hplace, Option.bind_eq_bind, Option.bind_some, hcall']
        rfl
      · by_cases hsame : user' = user
        · rw [hsame, Function.update_self, hshape', h.user_shape user huser]
        · rw [Function.update_of_ne hsame, h.user_shape user' huser']
      · by_cases hsame : user' = user
        · subst hsame
          rw [Function.update_self, hget col hcol i hi o ho d hd, hget' i hi _ d hd,
            h.get user' huser col hcol i hi o ho d hd]
        · rw [Function.update_of_ne hsame, ← h.get user' huser' col hcol i hi o ho d hd]
          refine hkept _ i o d fun col' hcol' heq => hsame ?_
          exact (hpages.injective user' huser' col hcol user huser col' hcol' heq).1
  | update fill_value update_indices =>
      obtain ⟨num_users, husers, fill_heads, hheads, hfill, hupdate, hplace⟩ := hfits
      choose! position hplace using fun user huser =>
        Option.isSome_iff_exists.mp (hplace user huser)
      obtain ⟨cache', hcall, hshape, hkept, hget⟩ :=
        paged_update_cache_spec hpages h.shape hfill hheads hupdate husers hplace
      obtain ⟨caches', hcall', hshape', hget'⟩ := update_users_spec fill_value
        (fun user huser => h.user_shape user (by omega)) hplace
      refine ⟨cache', caches', hcall, ?_, ⟨hshape.trans h.shape,
        fun user huser => (hshape' user).trans (h.user_shape user huser),
        fun user huser col hcol i hi o ho d hd => ?_⟩, hkept⟩
      · rw [contiguous_call, hupdate]
        exact hcall'
      · rw [hget user huser col hcol i hi o ho d hd, hget' user i hi _ d hd,
          h.get user huser col hcol i hi o ho d hd]

theorem run_simulates (hpages : Pages page_table users num_cols num_blocks page)
    (hblock : 0 < block_size)
    (h : Simulates users num_cols num_blocks num_heads block_size head_size page cache caches)
    (calls : List (Call R))
    (hfits : ∀ call ∈ calls, call.Fits users num_heads (num_cols * block_size) head_size) :
    ∃ cache' caches', calls.foldlM (paged_call page_table) cache = some cache' ∧
      calls.foldlM (contiguous_call users num_heads head_size) caches = some caches' ∧
      Simulates users num_cols num_blocks num_heads block_size head_size page cache' caches' ∧
      ∀ block h o d, (∀ user < users, ∀ col < num_cols, block ≠ page user col) →
        cache'.get [block, h, o, d] = cache.get [block, h, o, d] := by
  induction calls generalizing cache caches with
  | nil => exact ⟨cache, caches, rfl, rfl, h, fun _ _ _ _ _ => rfl⟩
  | cons call calls ih =>
      obtain ⟨cache₁, caches₁, hcall, hcall', h₁, hkept₁⟩ :=
        call_simulates hpages hblock h (hfits call List.mem_cons_self)
      obtain ⟨cache₂, caches₂, hrun, hrun', h₂, hkept₂⟩ :=
        ih h₁ fun call hmem => hfits call (List.mem_cons_of_mem _ hmem)
      refine ⟨cache₂, caches₂, ?_, ?_, h₂, fun block i o d hout =>
        (hkept₂ block i o d hout).trans (hkept₁ block i o d hout)⟩
      · rw [List.foldlM_cons, hcall, Option.bind_eq_bind, Option.bind_some, hrun]
      · rw [List.foldlM_cons, hcall', Option.bind_eq_bind, Option.bind_some, hrun']

theorem gather_simulates (hcache : cache.shape = [num_blocks, num_heads, block_size, head_size]) :
    Simulates users num_cols num_blocks num_heads block_size head_size page cache
      (gather cache page num_cols num_heads block_size head_size) where
  shape := hcache
  user_shape := fun _ _ => rfl
  get := by
    intro user _ col _ i _ o ho d _
    obtain ⟨hdiv, hmod⟩ := (Nat.div_mod_unique (a := col * block_size + o)
      (Nat.zero_lt_of_lt ho)).mpr ⟨by rw [Nat.add_comm, Nat.mul_comm], ho⟩
    change _ = cache.get [page user ((col * block_size + o) / block_size), i,
      (col * block_size + o) % block_size, d]
    rw [hdiv, hmod]

theorem Simulates.same
    (h : Simulates users num_cols num_blocks num_heads block_size head_size page cache caches)
    {user : Nat} (huser : user < users) :
    (gather cache page num_cols num_heads block_size head_size user).Same (caches user) := by
  refine ⟨(h.user_shape user huser).symm, fun is his => ?_⟩
  obtain ⟨b, i, t, d, rfl⟩ : ∃ b i t d, is = [b, i, t, d] := by
    have hlen := List.Forall₂.length_eq his
    match is, hlen with
    | [b, i, t, d], _ => exact ⟨b, i, t, d, rfl⟩
  simp only [gather, inBounds_cons, inBounds_nil, and_true] at his
  obtain ⟨hb, hi, ht, hd⟩ := his
  obtain rfl : b = 0 := by omega
  have hblock : 0 < block_size := by
    refine Nat.pos_of_ne_zero ?_
    rintro rfl
    exact Nat.not_lt_zero _ ht
  have hget := h.get user huser (t / block_size)
    (Nat.div_lt_of_lt_mul (Nat.mul_comm num_cols block_size ▸ ht)) i hi (t % block_size)
    (Nat.mod_lt _ hblock) d hd
  rw [Nat.div_add_mod'] at hget
  exact hget

-- However the caches are filled and updated, the pages of a user hold what a contiguous cache
-- would hold, and the other pages stay as they are.
theorem paged_cache_refines (hpages : Pages page_table users num_cols num_blocks page)
    (hcache : cache.shape = [num_blocks, num_heads, block_size, head_size])
    (hblock : 0 < block_size) (calls : List (Call R))
    (hfits : ∀ call ∈ calls, call.Fits users num_heads (num_cols * block_size) head_size) :
    ∃ cache' caches', calls.foldlM (paged_call page_table) cache = some cache' ∧
      calls.foldlM (contiguous_call users num_heads head_size)
        (gather cache page num_cols num_heads block_size head_size) = some caches' ∧
      (∀ user < users,
        (gather cache' page num_cols num_heads block_size head_size user).Same (caches' user)) ∧
      ∀ block h o d, (∀ user < users, ∀ col < num_cols, block ≠ page user col) →
        cache'.get [block, h, o, d] = cache.get [block, h, o, d] := by
  obtain ⟨cache', caches', hrun, hrun', h, hkept⟩ :=
    run_simulates hpages hblock (gather_simulates hcache) calls hfits
  exact ⟨cache', caches', hrun, hrun', fun user huser => h.same huser, hkept⟩

def two_pages : Tensor Int := ⟨[2, 1], fun is => if is = [0, 0] then 1 else -2⟩

def two_calls : List (Call Nat) :=
  [.fill ⟨[1, 1, 1, 1], fun _ => 5⟩ (some (-1)),
    .update ⟨[1, 2, 1, 1], fun _ => 7⟩ ⟨[2], fun is => if is = [0] then 0 else -1⟩]

theorem two_pages_table : Pages two_pages 2 1 2 (fun user _ => 1 - user) :=
  ⟨rfl, by decide, fun user _ col _ user' _ col' _ heq => ⟨by omega, by omega⟩⟩

theorem two_calls_refine :
    ∃ cache' caches', two_calls.foldlM (paged_call two_pages) (zeros [2, 1, 2, 1]) =
        some cache' ∧
      two_calls.foldlM (contiguous_call 2 1 1)
        (gather (zeros [2, 1, 2, 1]) (fun user _ => 1 - user) 1 1 2 1) = some caches' ∧
      (∀ user < 2, (gather cache' (fun user _ => 1 - user) 1 1 2 1 user).Same (caches' user)) ∧
      ∀ block h o d, (∀ user < 2, ∀ col < 1, block ≠ 1 - user) →
        cache'.get [block, h, o, d] = (zeros [2, 1, 2, 1]).get [block, h, o, d] := by
  refine paged_cache_refines two_pages_table rfl Nat.zero_lt_two two_calls fun call hcall => ?_
  simp only [two_calls, List.mem_cons, List.not_mem_nil, or_false] at hcall
  obtain rfl | rfl := hcall
  · exact ⟨⟨1, by decide, rfl⟩, rfl⟩
  · exact ⟨2, by decide, 1, by decide, rfl, rfl, by decide⟩

end Run

end TTXla.TTTorch.PagedCache
