import TTXla.PJRT.CleanForXla
import TTXla.PJRT.CleanForXla.HloSharding

-- The canonical form of a transposed iota.
namespace TTXla.PJRT.CleanForXla

open Tensor Strided Excepts

theorem count_steps {dims perm : List Nat} (h : perm.Perm (List.range dims.length)) :
    count (steps dims perm) = dims.prod := by
  have hdims : (List.range dims.length).map (fun d => dims.getD d 1) = dims := by
    apply List.ext_getElem
    · simp
    · intro i hi hi'
      rw [List.getElem_map, List.getElem_range, List.getD_eq_getElem _ _ hi']
  unfold count
  rw [steps_sizes, (h.map _).prod_eq, hdims]

theorem device_order_congr {dims dims' perm perm' : List Nat} (hprod : dims'.prod = dims.prod)
    (h : ∀ k < dims.prod, offset (steps dims' perm') k = offset (steps dims perm) k) :
    device_order dims' perm' = device_order dims perm := by
  unfold device_order
  rw [hprod]
  exact List.map_congr_left fun k hk => h k (List.mem_range.mp hk)

theorem prod_filter_ne_one (dims : List Nat) : (dims.filter (· ≠ 1)).prod = dims.prod := by
  induction dims with
  | nil => rfl
  | cons d dims ih =>
      by_cases hd : d = 1
      · rw [List.filter_cons_of_neg (by simp [hd]), ih, List.prod_cons, hd, Nat.one_mul]
      · rw [List.filter_cons_of_pos (by simp [hd]), List.prod_cons, List.prod_cons, ih]

section Remove

theorem old_to_new_dims_append (dims : List Nat) (d : Nat) :
    old_to_new_dims (dims ++ [d]) = old_to_new_dims dims ++
      [if d = 1 then none else some (dims.filter (· ≠ 1)).length] := by
  have hcount : ∀ dims : List Nat, (dims.foldl (fun (st : List (Option Nat) × Nat) dim =>
      if dim = 1 then (st.1 ++ [none], st.2) else (st.1 ++ [some st.2], st.2 + 1))
        ([], 0)).2 = (dims.filter (· ≠ 1)).length := by
    intro dims
    induction dims using List.reverseRecOn with
    | nil => rfl
    | append_singleton dims d ih =>
        rw [List.foldl_append, List.filter_append, List.length_append, ← ih]
        by_cases hd : d = 1
        · simp [hd]
        · simp [hd]
  unfold old_to_new_dims
  rw [List.foldl_append, ← hcount]
  by_cases hd : d = 1
  · simp [hd]
  · simp [hd]

theorem old_to_new_dims_length (dims : List Nat) :
    (old_to_new_dims dims).length = dims.length := by
  induction dims using List.reverseRecOn with
  | nil => rfl
  | append_singleton dims d ih =>
      rw [old_to_new_dims_append, List.length_append, List.length_append, ih]
      rfl

theorem old_to_new_dims_prefix (dims dims' : List Nat) :
    old_to_new_dims dims <+: old_to_new_dims (dims ++ dims') := by
  induction dims' using List.reverseRecOn with
  | nil => rw [List.append_nil]
  | append_singleton dims' d ih =>
      rw [← List.append_assoc, old_to_new_dims_append]
      exact ih.trans (List.prefix_append _ _)

theorem getD_old_to_new_dims (dims : List Nat) (d : Nat) (dims' : List Nat) :
    (old_to_new_dims (dims ++ d :: dims')).getD dims.length none =
      if d = 1 then none else some (dims.filter (· ≠ 1)).length := by
  have hprefix := old_to_new_dims_prefix (dims ++ [d]) dims'
  rw [List.append_assoc, List.singleton_append, old_to_new_dims_append] at hprefix
  obtain ⟨rest, hrest⟩ := hprefix
  rw [← hrest, List.append_assoc, List.getD_append_right _ _ _ _
    (Nat.le_of_eq (old_to_new_dims_length dims)), old_to_new_dims_length, Nat.sub_self]
  rfl

-- The dimensions that stay, in order, are numbered from zero.
theorem filterMap_old_to_new_dims (dims : List Nat) :
    ((List.range dims.length).filterMap fun d => (old_to_new_dims dims).getD d none) =
      List.range (dims.filter (· ≠ 1)).length := by
  induction dims using List.reverseRecOn with
  | nil => rfl
  | append_singleton dims d ih =>
      have hold : ((List.range dims.length).filterMap fun i =>
          (old_to_new_dims (dims ++ [d])).getD i none) =
          (List.range dims.length).filterMap fun i => (old_to_new_dims dims).getD i none := by
        apply List.filterMap_congr
        intro i hi
        have hlt : i < (old_to_new_dims dims).length := by
          rw [old_to_new_dims_length]
          exact List.mem_range.mp hi
        rw [old_to_new_dims_append, List.getD_append _ _ _ _ hlt]
      rw [List.length_append, List.length_singleton, List.range_succ, List.filterMap_append,
        hold, ih]
      by_cases hd : d = 1
      · have hnew := getD_old_to_new_dims dims d []
        have hfilter : (dims ++ [d]).filter (· ≠ 1) = dims.filter (· ≠ 1) := by simp [hd]
        rw [if_pos hd] at hnew
        simp only [List.filterMap_cons, List.filterMap_nil, hnew, hfilter, List.append_nil]
      · have hnew := getD_old_to_new_dims dims d []
        rw [if_neg hd] at hnew
        have hfilter : ((dims ++ [d]).filter (· ≠ 1)).length =
            (dims.filter (· ≠ 1)).length + 1 := by simp [hd]
        rw [hfilter, List.range_succ]
        simp only [List.filterMap_cons, List.filterMap_nil, hnew]

theorem step_at (dims : List Nat) (d : Nat) (dims' : List Nat) :
    (dims ++ d :: dims').getD dims.length 1 = d ∧
      stride (dims ++ d :: dims') dims.length = dims'.prod := by
  constructor
  · rw [List.getD_append_right _ _ _ _ (Nat.le_refl _), Nat.sub_self]
    rfl
  · exact stride_append_right dims (d :: dims') 0

-- Without the dimensions of size 1, the steps of size 1 are gone.
theorem steps_remove (dims : List Nat) {perm : List Nat} (h : ∀ d ∈ perm, d < dims.length) :
    steps (dims.filter (· ≠ 1)) (perm.filterMap fun d => (old_to_new_dims dims).getD d none) =
      (steps dims perm).filter fun x => x.1 ≠ 1 := by
  induction perm with
  | nil => rfl
  | cons i perm ih =>
      have hi := h i List.mem_cons_self
      have hrest := ih fun d hd => h d (List.mem_cons_of_mem _ hd)
      have hsplit : dims = dims.take i ++ dims[i] :: dims.drop (i + 1) := by
        rw [List.getElem_cons_drop, List.take_append_drop]
      have hlen : (dims.take i).length = i := by
        rw [List.length_take]
        omega
      have hnew := getD_old_to_new_dims (dims.take i) dims[i] (dims.drop (i + 1))
      have hstep := step_at (dims.take i) dims[i] (dims.drop (i + 1))
      rw [← hsplit, hlen] at hnew hstep
      have hcons : steps dims (i :: perm) = (dims[i], stride dims i) :: steps dims perm := by
        unfold steps
        rw [List.map_cons, hstep.1]
      rw [hcons]
      by_cases hone : dims[i] = 1
      · rw [if_pos hone] at hnew
        rw [List.filter_cons_of_neg (by simp [hone]), ← hrest]
        simp only [List.filterMap_cons, hnew]
      · rw [if_neg hone] at hnew
        have hfilter : dims.filter (· ≠ 1) = (dims.take i).filter (· ≠ 1) ++
            dims[i] :: (dims.drop (i + 1)).filter (· ≠ 1) := by
          conv_lhs => rw [hsplit]
          rw [List.filter_append, List.filter_cons_of_pos (by simp [hone])]
        have hkept := step_at ((dims.take i).filter (· ≠ 1)) dims[i]
          ((dims.drop (i + 1)).filter (· ≠ 1))
        rw [← hfilter, prod_filter_ne_one] at hkept
        rw [List.filter_cons_of_pos (by simp [hone]), ← hrest]
        simp only [List.filterMap_cons, hnew, steps, List.map_cons]
        rw [hkept.1, hkept.2, hstep.2]

theorem remove_unit_dims_spec {dims perm : List Nat} (h : Iota dims perm) :
    ∃ perm', remove_unit_dims dims perm = .ok (dims.filter (· ≠ 1), perm') ∧
      Iota (dims.filter (· ≠ 1)) perm' ∧
      device_order (dims.filter (· ≠ 1)) perm' = device_order dims perm := by
  by_cases hlen : (dims.filter (· ≠ 1)).length = dims.length
  · have hself : dims.filter (· ≠ 1) = dims :=
      List.filter_eq_self.mpr (List.length_filter_eq_length_iff.mp hlen)
    refine ⟨perm, ?_, hself.symm ▸ h, by rw [hself]⟩
    unfold remove_unit_dims
    rw [if_neg (not_not.mpr hlen), hself]
    rfl
  · have hperm : (perm.filterMap fun d => (old_to_new_dims dims).getD d none).Perm
        (List.range (dims.filter (· ≠ 1)).length) := by
      rw [← filterMap_old_to_new_dims]
      exact h.perm.filterMap _
    refine ⟨_, ?_, ⟨fun d hd => h.pos d (List.mem_of_mem_filter hd), hperm⟩, ?_⟩
    · unfold remove_unit_dims
      have hle : (perm.filterMap fun d => (old_to_new_dims dims).getD d none).length ≤
          (dims.filter (· ≠ 1)).length := by
        rw [hperm.length_eq, List.length_range]
      rw [if_pos hlen]
      simp only [ensure_of hle]
      rfl
    · apply device_order_congr (prod_filter_ne_one dims)
      intro k hk
      rw [steps_remove dims fun d hd => List.mem_range.mp (h.perm.mem_iff.mp hd)]
      exact offset_filter _ (by rw [count_steps h.perm]; exact hk)

end Remove

section Merge

-- Two dimensions with dimensions of size 1 in between.
def run_dims (pre post : List Nat) (m x y : Nat) : List Nat :=
  pre ++ x :: (List.replicate m 1 ++ y :: post)

-- The dimensions outside keep their size and their stride.
theorem steps_outside (pre post : List Nat) (m : Nat) {x y x' y' : Nat} (hxy : x * y = x' * y')
    {l : List Nat} (hl : ∀ d ∈ l, d ∉ List.range' pre.length (m + 2)) :
    steps (run_dims pre post m x y) l = steps (run_dims pre post m x' y') l := by
  unfold steps
  apply List.map_congr_left
  intro d hd
  have hout := hl d hd
  rw [List.mem_range'_1] at hout
  rcases Nat.lt_or_ge d pre.length with hlt | hge
  · have hprod : ∀ x y : Nat, (x :: (List.replicate m 1 ++ y :: post)).prod =
        x * y * post.prod := by
      intro x y
      rw [List.prod_cons, List.prod_append, List.prod_replicate, Nat.one_pow, Nat.one_mul,
        List.prod_cons, Nat.mul_assoc]
    unfold run_dims
    rw [List.getD_append _ _ _ _ hlt, List.getD_append _ _ _ _ hlt, stride_append_left hlt,
      stride_append_left hlt, hprod, hprod, hxy]
  · obtain ⟨j, rfl⟩ : ∃ j, d = pre.length + (m + 2) + j := ⟨d - (pre.length + (m + 2)), by omega⟩
    have hstep : ∀ x y : Nat,
        ((run_dims pre post m x y).getD (pre.length + (m + 2) + j) 1,
          stride (run_dims pre post m x y) (pre.length + (m + 2) + j)) =
        (post.getD j 1, stride post j) := by
      intro x y
      have hshape : run_dims pre post m x y =
          (pre ++ x :: (List.replicate m 1 ++ [y])) ++ post := by simp [run_dims]
      have hlen : (pre ++ x :: (List.replicate m 1 ++ [y])).length = pre.length + (m + 2) := by
        simp
      rw [hshape, ← hlen, stride_append_right,
        List.getD_append_right _ _ _ _ (Nat.le_add_right _ _), Nat.add_sub_cancel_left]
    rw [hstep, hstep]

theorem steps_run (pre post : List Nat) (m x y : Nat) :
    ∃ ones : List (Nat × Nat), (∀ z ∈ ones, z.1 = 1) ∧
      steps (run_dims pre post m x y) (List.range' pre.length (m + 2)) =
        (x, y * post.prod) :: ones ++ [(y, post.prod)] := by
  refine ⟨steps (run_dims pre post m x y) (List.range' (pre.length + 1) m), ?_, ?_⟩
  · intro z hz
    obtain ⟨d, hd, rfl⟩ := List.mem_map.mp hz
    rw [List.mem_range'_1] at hd
    obtain ⟨j, rfl⟩ : ∃ j, d = pre.length + (j + 1) := ⟨d - (pre.length + 1), by omega⟩
    have hj : j < (List.replicate m 1).length := by
      rw [List.length_replicate]
      omega
    change (run_dims pre post m x y).getD (pre.length + (j + 1)) 1 = 1
    unfold run_dims
    rw [List.getD_append_right _ _ _ _ (Nat.le_add_right _ _), Nat.add_sub_cancel_left,
      List.getD_cons_succ, List.getD_append _ _ _ _ hj, List.getD_eq_getElem _ _ hj,
      List.getElem_replicate]
  · have hfirst := step_at pre x (List.replicate m 1 ++ y :: post)
    have hlast := step_at (pre ++ x :: List.replicate m 1) y post
    have hlen : (pre ++ x :: List.replicate m 1).length = pre.length + 1 + m := by
      simp
      omega
    rw [hlen, List.append_assoc, List.cons_append] at hlast
    have hprod : (List.replicate m 1 ++ y :: post).prod = y * post.prod := by
      rw [List.prod_append, List.prod_replicate, Nat.one_pow, Nat.one_mul, List.prod_cons]
    have hrange : List.range' pre.length (m + 2) =
        pre.length :: List.range' (pre.length + 1) m ++ [pre.length + 1 + m] := by
      rw [List.range'_succ, List.range'_concat, Nat.one_mul]
      rfl
    rw [hrange]
    unfold steps run_dims
    rw [List.map_append, List.map_cons, List.map_singleton, hfirst.1, hfirst.2, hlast.1,
      hlast.2, hprod]

-- When they follow each other in the transposed order, the second can move into the first.
theorem offset_run (pre post : List Nat) (m a b : Nat) {before after : List Nat}
    (hnodup : (before ++ (List.range' pre.length (m + 2) ++ after)).Nodup) {k : Nat}
    (hk : k < count (steps (run_dims pre post m a b)
      (before ++ (List.range' pre.length (m + 2) ++ after)))) :
    offset (steps (run_dims pre post m a b)
        (before ++ (List.range' pre.length (m + 2) ++ after))) k =
      offset (steps (run_dims pre post m (a * b) 1)
        (before ++ (List.range' pre.length (m + 2) ++ after))) k := by
  have hsplit : ∀ dims : List Nat, steps dims (before ++
      (List.range' pre.length (m + 2) ++ after)) =
      steps dims before ++ (steps dims (List.range' pre.length (m + 2)) ++ steps dims after) := by
    intro dims
    unfold steps
    rw [List.map_append, List.map_append]
  obtain ⟨-, hrest, hdisjoint⟩ := List.nodup_append'.mp hnodup
  obtain ⟨-, -, hdisjoint'⟩ := List.nodup_append'.mp hrest
  have hab : a * b = a * b * 1 := (Nat.mul_one _).symm
  have hbefore := steps_outside pre post m hab fun d hd hmem =>
    hdisjoint hd (List.mem_append_left _ hmem)
  have hafter := steps_outside pre post m hab fun d hd hmem => hdisjoint' hmem hd
  obtain ⟨ones, hones, hleft⟩ := steps_run pre post m a b
  obtain ⟨ones', hones', hright⟩ := steps_run pre post m (a * b) 1
  have hjoin : ∀ (x y : Nat × Nat) (l l' : List (Nat × Nat)),
      x :: l ++ [y] ++ l' = x :: l ++ y :: l' := by
    intro x y l l'
    simp
  have hcount : ∀ (x y s s' : Nat) {l : List (Nat × Nat)}, (∀ z ∈ l, z.1 = 1) →
      ∀ l' : List (Nat × Nat), count ((x, s) :: l ++ (y, s') :: l') = x * y * count l' := by
    intro x y s s' l hl l'
    rw [List.cons_append, count_cons, count_ones hl, count_cons, Nat.mul_assoc]
  rw [hsplit, hleft, hjoin] at hk ⊢
  rw [hsplit, hright, ← hbefore, ← hafter, hjoin, Nat.one_mul]
  refine offset_append_of_lt ?_ ?_ _ hk
  · rw [hcount _ _ _ _ hones, hcount _ _ _ _ hones', Nat.mul_one]
  · intro j hj
    rw [hcount _ _ _ _ hones] at hj
    exact offset_merge_ones a b post.prod hones hones' hj

theorem run_dims_set (pre post : List Nat) (m a b v : Nat) :
    ((run_dims pre post m a b).set pre.length v).set (pre.length + (m + 1)) 1 =
      run_dims pre post m v 1 := by
  have hfirst : (run_dims pre post m a b).set pre.length v = run_dims pre post m v b := by
    unfold run_dims
    rw [List.set_append_right _ _ (Nat.le_refl _), Nat.sub_self, List.set_cons_zero]
  have hshape : ∀ y : Nat, run_dims pre post m v y =
      (pre ++ v :: List.replicate m 1) ++ y :: post := by
    intro y
    simp [run_dims]
  have hlen : (pre ++ v :: List.replicate m 1).length = pre.length + (m + 1) := by simp
  rw [hfirst, hshape, ← hlen, List.set_append_right _ _ (Nat.le_refl _), Nat.sub_self,
    List.set_cons_zero, ← hshape]

theorem exists_run_dims {dims : List Nat} {d m : Nat} (hlt : d + m + 1 < dims.length)
    (hones : ∀ j, 0 < j → j ≤ m → dims.getD (d + j) 1 = 1) :
    ∃ pre post, pre.length = d ∧
      dims = run_dims pre post m (dims.getD d 1) (dims.getD (d + m + 1) 1) := by
  have hd : d < dims.length := by omega
  have hones' : (dims.drop (d + 1)).take m = List.replicate m 1 := by
    apply List.eq_replicate_iff.mpr
    constructor
    · rw [List.length_take, List.length_drop]
      omega
    · intro x hx
      obtain ⟨j, hj, rfl⟩ := List.getElem_of_mem hx
      rw [List.length_take] at hj
      have hjd : d + (j + 1) < dims.length := by omega
      have hone := hones (j + 1) (by omega) (by omega)
      rw [List.getD_eq_getElem _ _ hjd] at hone
      simp only [List.getElem_take, List.getElem_drop]
      have hshift : d + 1 + j = d + (j + 1) := by omega
      simp only [hshift]
      exact hone
  refine ⟨dims.take d, dims.drop (d + m + 2), by rw [List.length_take]; omega, ?_⟩
  unfold run_dims
  rw [List.getD_eq_getElem _ _ hd, List.getD_eq_getElem _ _ hlt, ← hones',
    List.getElem_cons_drop]
  have hdrop : dims.drop (d + m + 1) = (dims.drop (d + 1)).drop m := by
    rw [List.drop_drop]
    congr 1
    omega
  rw [hdrop, List.take_append_drop, List.getElem_cons_drop, List.take_append_drop]

theorem exists_run_perm {perm : List Nat} {base d m : Nat} (hlt : base + m + 1 < perm.length)
    (hrun : ∀ j ≤ m + 1, perm.getD (base + j) 0 = d + j) :
    ∃ before after, perm = before ++ (List.range' d (m + 2) ++ after) := by
  have hmiddle : (perm.drop base).take (m + 2) = List.range' d (m + 2) := by
    apply List.ext_getElem
    · rw [List.length_take, List.length_drop, List.length_range']
      omega
    · intro j hj hj'
      rw [List.length_range'] at hj'
      have hbound : base + j < perm.length := by omega
      have hvalue := hrun j (by omega)
      rw [List.getD_eq_getElem _ _ hbound] at hvalue
      rw [List.getElem_take, List.getElem_drop, hvalue, List.getElem_range', Nat.one_mul]
  refine ⟨perm.take base, (perm.drop base).drop (m + 2), ?_⟩
  rw [← hmiddle, List.take_append_drop, List.take_append_drop]

theorem merge_dims {dims perm : List Nat} (h : Iota dims perm) {base d m : Nat}
    (hlt : base + m + 1 < perm.length) (hrun : ∀ j ≤ m + 1, perm.getD (base + j) 0 = d + j)
    (hones : ∀ j, 0 < j → j ≤ m → dims.getD (d + j) 1 = 1) {merged : List Nat}
    (hmerged : merged = (dims.set d (dims.getD d 1 * dims.getD (d + m + 1) 1)).set
      (d + m + 1) 1) :
    Iota merged perm ∧ device_order merged perm = device_order dims perm := by
  have hlast : base + (m + 1) < perm.length := hlt
  have hmem : d + (m + 1) ∈ perm := by
    rw [← hrun (m + 1) (Nat.le_refl _), List.getD_eq_getElem _ _ hlast]
    exact List.getElem_mem hlast
  have hdlt : d + m + 1 < dims.length := List.mem_range.mp (h.perm.mem_iff.mp hmem)
  obtain ⟨pre, post, rfl, hdims⟩ := exists_run_dims hdlt hones
  obtain ⟨before, after, hperm⟩ := exists_run_perm hlt hrun
  generalize dims.getD pre.length 1 = a at hdims hmerged
  generalize dims.getD (pre.length + m + 1) 1 = b at hdims hmerged
  rw [hdims, Nat.add_assoc, run_dims_set] at hmerged
  have hlen : merged.length = dims.length := by
    rw [hmerged, hdims]
    simp [run_dims]
  have hprod : merged.prod = dims.prod := by
    rw [hmerged, hdims]
    simp only [run_dims, List.prod_append, List.prod_cons]
    ring
  refine ⟨⟨?_, by rw [hlen]; exact h.perm⟩, ?_⟩
  · intro x hx
    have hpos : ∀ y ∈ run_dims pre post m a b, 0 < y := fun y hy => h.pos y (hdims ▸ hy)
    have ha := hpos a (by simp [run_dims])
    have hb := hpos b (by simp [run_dims])
    rw [hmerged] at hx
    simp only [run_dims, List.mem_append, List.mem_cons, List.mem_replicate] at hx
    rcases hx with hx | rfl | ⟨-, rfl⟩ | rfl | hx
    · exact hpos x (by simp [run_dims, hx])
    · exact Nat.mul_pos ha hb
    · exact Nat.one_pos
    · exact Nat.one_pos
    · exact hpos x (by simp [run_dims, hx])
  · apply device_order_congr hprod
    intro k hk
    have hnodup : perm.Nodup := h.perm.nodup_iff.mpr List.nodup_range
    rw [← count_steps h.perm] at hk
    rw [hperm] at hnodup hk ⊢
    rw [hdims] at hk ⊢
    rw [hmerged, ← offset_run pre post m a b hnodup hk]

-- The loop over the transposed order, before it reaches `i`.
structure Merging (dims perm : List Nat) (st : MergeState) (i : Nat) : Prop where
  base : st.base < i
  iota : Iota st.reshape_dims perm
  order : device_order st.reshape_dims perm = device_order dims perm
  run : ∀ j, st.base + j < i → perm.getD (st.base + j) 0 = perm.getD st.base 0 + j
  ones : ∀ j, 0 < j → st.base + j < i →
    st.reshape_dims.getD (perm.getD st.base 0 + j) 1 = 1
  changed : st.changed = true → 1 ∈ st.reshape_dims
  unchanged : st.changed = false → st.reshape_dims = dims ∧ st.base + 1 = i ∧
    ∀ j, j + 1 < i → perm.getD (j + 1) 0 ≠ perm.getD j 0 + 1

theorem Merging.step {dims perm : List Nat} {st : MergeState} {i : Nat}
    (h : Merging dims perm st i) (hi : i < perm.length) :
    Merging dims perm (merge_step perm st i) (i + 1) := by
  have hbase := h.base
  by_cases hnext : perm.getD st.base 0 + (i - st.base) = perm.getD i 0
  · obtain ⟨m, hm⟩ : ∃ m, i = st.base + m + 1 := ⟨i - st.base - 1, by omega⟩
    have hdim : perm.getD i 0 = perm.getD st.base 0 + m + 1 := by omega
    have hrun : ∀ j ≤ m + 1, perm.getD (st.base + j) 0 = perm.getD st.base 0 + j := by
      intro j hj
      rcases Nat.lt_or_ge j (m + 1) with hlt | hge
      · exact h.run j (by omega)
      · obtain rfl : j = m + 1 := Nat.le_antisymm hj hge
        rw [← Nat.add_assoc, ← hm, hdim]
        rfl
    have hones : ∀ j, 0 < j → j ≤ m →
        st.reshape_dims.getD (perm.getD st.base 0 + j) 1 = 1 :=
      fun j hpos hj => h.ones j hpos (by omega)
    have hstep : merge_step perm st i = { st with
        reshape_dims := (st.reshape_dims.set (perm.getD st.base 0)
          (st.reshape_dims.getD (perm.getD st.base 0) 1 *
            st.reshape_dims.getD (perm.getD st.base 0 + m + 1) 1)).set
          (perm.getD st.base 0 + m + 1) 1
        changed := true } := by
      unfold merge_step
      rw [hdim] at hnext ⊢
      exact if_pos hnext
    obtain ⟨hiota, horder⟩ := merge_dims h.iota (hm ▸ hi) hrun hones rfl
    have hlt : perm.getD st.base 0 + m + 1 < st.reshape_dims.length := by
      rw [← hdim, List.getD_eq_getElem _ _ hi]
      exact List.mem_range.mp (h.iota.perm.mem_iff.mp (List.getElem_mem hi))
    rw [hstep]
    refine ⟨Nat.lt_succ_of_lt hbase, hiota, horder.trans h.order, ?_, ?_, ?_, ?_⟩
    · intro j hj
      change st.base + j < i + 1 at hj
      exact hrun j (by omega)
    · intro j hpos hj
      change st.base + j < i + 1 at hj
      rcases Nat.lt_or_ge j (m + 1) with hj' | hj'
      · have hone := hones j hpos (by omega)
        dsimp only
        rw [List.getD_eq_getElem?_getD] at hone ⊢
        rw [List.getElem?_set_ne (by omega), List.getElem?_set_ne (by omega)]
        exact hone
      · have hlast : perm.getD st.base 0 + j = perm.getD st.base 0 + m + 1 := by omega
        rw [hlast, List.getD_eq_getElem?_getD, List.getElem?_set_self (by simpa using hlt)]
        rfl
    · intro _
      exact List.mem_set (by simpa using hlt) 1
    · intro hfalse
      cases hfalse
  · have hstep : merge_step perm st i = { st with base := i } := by
      unfold merge_step
      exact if_neg hnext
    rw [hstep]
    refine ⟨Nat.lt_succ_self i, h.iota, h.order, ?_, ?_, h.changed, ?_⟩
    · intro j hj
      obtain rfl : j = 0 := by
        change i + j < i + 1 at hj
        omega
      rfl
    · intro j hpos hj
      change i + j < i + 1 at hj
      omega
    · intro hfalse
      obtain ⟨hdims, hlast, hnone⟩ := h.unchanged hfalse
      refine ⟨hdims, rfl, ?_⟩
      intro j hj
      rcases Nat.lt_or_ge (j + 1) i with hlt | hge
      · exact hnone j hlt
      · obtain rfl : j = st.base := by omega
        have hone : i - st.base = 1 := by omega
        rw [hlast]
        rw [hone] at hnext
        exact Ne.symm hnext

theorem merge_subranges_spec {dims perm : List Nat} (h : Iota dims perm) (hne : dims ≠ []) :
    Merging dims perm (merge_subranges dims perm) dims.length := by
  have hlen : perm.length = dims.length := by rw [h.perm.length_eq, List.length_range]
  have hpos := List.length_pos_of_ne_nil hne
  have hrun : ∀ n, n + 1 ≤ perm.length → Merging dims perm
      ((List.range' 1 n).foldl (merge_step perm) ⟨0, dims, false⟩) (n + 1) := by
    intro n
    induction n with
    | zero =>
        intro _
        refine ⟨Nat.one_pos, h, rfl, ?_, ?_, ?_, fun _ => ⟨rfl, rfl, ?_⟩⟩
        · intro j hj
          obtain rfl : j = 0 := by
            change 0 + j < 0 + 1 at hj
            omega
          rfl
        · intro j hj hlt
          change 0 + j < 0 + 1 at hlt
          omega
        · intro hfalse
          cases hfalse
        · intro j hj
          omega
    | succ n ih =>
        intro hn
        rw [List.range'_concat, List.foldl_append, Nat.one_mul, Nat.add_comm 1 n]
        exact (ih (by omega)).step (by omega)
  have hall := hrun (dims.length - 1) (by omega)
  rw [Nat.sub_add_cancel hpos] at hall
  exact hall

end Merge

-- The canonical form keeps the order, and there is nothing left to remove or to merge.
structure Canonical (dims perm dims' perm' : List Nat) : Prop where
  iota : Iota dims' perm'
  order : device_order dims' perm' = device_order dims perm
  no_unit_dim : ∀ d ∈ dims', d ≠ 1
  no_merge : ∀ j, j + 1 < perm'.length → perm'.getD (j + 1) 0 ≠ perm'.getD j 0 + 1

-- Every round that changes something leaves a dimension of size 1 to the next one.
theorem canonicalize_rounds_spec {dims perm : List Nat} (h : Iota dims perm) {rounds : Nat}
    (hrounds : (dims.filter (· ≠ 1)).length < rounds) :
    ∃ dims' perm', canonicalize_rounds rounds dims perm = .ok (dims', perm') ∧
      Canonical dims perm dims' perm' := by
  induction rounds generalizing dims perm with
  | zero => omega
  | succ rounds ih =>
      obtain ⟨perm', hremove, hiota, horder⟩ := remove_unit_dims_spec h
      have hunit : ∀ d ∈ dims.filter (· ≠ 1), d ≠ 1 := by
        intro d hd
        simpa using (List.mem_filter.mp hd).2
      generalize dims.filter (· ≠ 1) = dims' at *
      have hlen : perm'.length = dims'.length := by
        rw [hiota.perm.length_eq, List.length_range]
      unfold canonicalize_rounds
      rw [hremove]
      change ∃ dims'' perm'', (if (merge_subranges dims' perm').changed then
          canonicalize_rounds rounds (merge_subranges dims' perm').reshape_dims perm'
        else .ok ((merge_subranges dims' perm').reshape_dims, perm')) = .ok (dims'', perm'') ∧ _
      rcases List.eq_nil_or_concat dims' with rfl | ⟨init, d, hdims'⟩
      · obtain rfl : perm' = [] := List.length_eq_zero_iff.mp hlen
        exact ⟨[], [], rfl, hiota, horder, hunit, fun j hj => by cases hj⟩
      · have hne : dims' ≠ [] := by simp [hdims']
        have hmerged := merge_subranges_spec hiota hne
        generalize merge_subranges dims' perm' = st at *
        cases hchanged : st.changed with
        | false =>
            obtain ⟨hdims, -, hnone⟩ := hmerged.unchanged hchanged
            refine ⟨st.reshape_dims, perm', rfl, hmerged.iota, hmerged.order.trans horder, ?_, ?_⟩
            · rw [hdims]
              exact hunit
            · rw [hlen]
              exact hnone
        | true =>
            have hlen' : st.reshape_dims.length = dims'.length := by
              rw [← hlen, hmerged.iota.perm.length_eq, List.length_range]
            have hless : (st.reshape_dims.filter (· ≠ 1)).length < st.reshape_dims.length := by
              apply List.length_filter_lt_length_iff_exists.mpr
              exact ⟨1, hmerged.changed hchanged, by simp⟩
            obtain ⟨dims'', perm'', hrest, hcanonical⟩ := ih hmerged.iota (by omega)
            exact ⟨dims'', perm'', hrest, hcanonical.iota,
              hcanonical.order.trans (hmerged.order.trans horder), hcanonical.no_unit_dim,
              hcanonical.no_merge⟩

theorem canonicalize_iota_dims_spec {dims perm : List Nat} (h : Iota dims perm) {rounds : Nat}
    (hrounds : dims.length < rounds) :
    ∃ dims' perm', canonicalize_iota_dims rounds dims perm = .ok (dims', perm') ∧
      Canonical dims perm dims' perm' := by
  have hlen : dims.length = perm.length := by rw [h.perm.length_eq, List.length_range]
  unfold canonicalize_iota_dims
  rw [ensure_of hlen]
  change ∃ dims' perm', (if dims.length < 1 then .ok (dims, perm)
    else canonicalize_rounds rounds dims perm) = .ok (dims', perm') ∧ _
  by_cases hempty : dims.length < 1
  · obtain rfl : dims = [] := List.length_eq_zero_iff.mp (by omega)
    obtain rfl : perm = [] := List.length_eq_zero_iff.mp hlen.symm
    exact ⟨[], [], rfl, h, rfl, fun d hd => (by cases hd), fun j hj => (by cases hj)⟩
  · rw [if_neg hempty]
    exact canonicalize_rounds_spec h
      (Nat.lt_of_le_of_lt (List.length_filter_le _ _) hrounds)

end TTXla.PJRT.CleanForXla
