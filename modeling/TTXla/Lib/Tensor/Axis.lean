import TTXla.Lib.Einsum
import Mathlib.Data.List.GetD
import Mathlib.Algebra.BigOperators.Ring.Finset

-- Linear maps along one axis of a tensor, and along several axes one after another.
namespace TTXla.Tensor

section Swap

-- `is` with the entries `a` and `b` exchanged.
def swapAt (is : List Nat) (a b : Nat) : List Nat := (is.set a (is.getD b 0)).set b (is.getD a 0)

variable {α : Type}

-- `t.transpose(a, b)`.
def transpose (t : Tensor α) (a b : Nat) : Tensor α :=
  ⟨swapAt t.shape a b, fun is => t.get (swapAt is a b)⟩

@[simp]
theorem length_swapAt (is : List Nat) (a b : Nat) : (swapAt is a b).length = is.length := by
  simp [swapAt]

theorem inBounds_iff {is ds : List Nat} :
    InBounds is ds ↔ is.length = ds.length ∧ ∀ c < is.length, is.getD c 0 < ds.getD c 0 := by
  unfold InBounds
  rw [List.forall₂_iff_get]
  refine and_congr_right fun hlen => ⟨fun h c hc => ?_, fun h c hc hc' => ?_⟩
  · have := h c hc (hlen ▸ hc)
    simpa [hc, hlen ▸ hc] using this
  · have := h c hc
    simpa [hc, hc'] using this

theorem getD_set (is : List Nat) (a c k : Nat) (hc : c < is.length) :
    (is.set a k).getD c 0 = if c = a then k else is.getD c 0 := by
  have hset : c < (is.set a k).length := by simpa using hc
  rw [List.getD_eq_getElem _ _ hset, List.getElem_set]
  by_cases h : a = c
  · rw [if_pos h, if_pos h.symm]
  · rw [if_neg h, if_neg fun h' => h h'.symm, List.getD_eq_getElem _ _ hc]

theorem getD_swapAt (is : List Nat) (a b : Nat) {c : Nat} (hc : c < is.length) :
    (swapAt is a b).getD c 0 =
      if c = b then is.getD a 0 else if c = a then is.getD b 0 else is.getD c 0 := by
  unfold swapAt
  rw [getD_set _ _ _ _ (by simpa using hc), getD_set _ _ _ _ hc]

theorem ext_getD {is js : List Nat} (hlen : is.length = js.length)
    (h : ∀ c < is.length, is.getD c 0 = js.getD c 0) : is = js := by
  refine List.ext_getElem hlen fun c hc hc' => ?_
  have := h c hc
  rwa [List.getD_eq_getElem _ _ hc, List.getD_eq_getElem _ _ hc'] at this

theorem swapAt_swapAt_set {is : List Nat} {a b : Nat} (ha : a < is.length) (hb : b < is.length)
    (k : Nat) : swapAt ((swapAt is a b).set b k) a b = is.set a k := by
  refine ext_getD (by simp) fun c hc => ?_
  simp only [length_swapAt, List.length_set] at hc
  rw [getD_swapAt _ _ _ (by simpa using hc), getD_set _ _ _ _ (by simpa using ha),
    getD_set _ _ _ _ (by simpa using hb), getD_set _ _ _ _ (by simpa using hc),
    getD_swapAt _ _ _ ha, getD_swapAt _ _ _ hc, getD_set _ _ _ _ hc]
  by_cases hcb : c = b
  · by_cases hab : a = b
    · simp [hcb, hab]
    · have hba : b ≠ a := fun h => hab h.symm
      simp [hcb, hab, hba]
  · by_cases hca : c = a
    · subst hca
      simp [hcb]
    · simp [hcb, hca]

theorem swapAt_swapAt {is : List Nat} {a b : Nat} (ha : a < is.length) (hb : b < is.length) :
    swapAt (swapAt is a b) a b = is := by
  have hself : ∀ js : List Nat, b < js.length → js.set b (js.getD b 0) = js := by
    intro js hjs
    refine ext_getD (by simp) fun c hc => ?_
    rw [getD_set _ _ _ _ (by simpa using hc)]
    split_ifs with h
    · rw [h]
    · rfl
  have hset := swapAt_swapAt_set ha hb ((swapAt is a b).getD b 0)
  rw [hself _ (by simpa using hb), getD_swapAt _ _ _ hb, if_pos rfl] at hset
  rw [hset]
  refine ext_getD (by simp) fun c hc => ?_
  rw [getD_set _ _ _ _ (by simpa using hc)]
  split_ifs with h
  · rw [h]
  · rfl

theorem inBounds_swapAt {is ds : List Nat} {a b : Nat} (ha : a < is.length) (hb : b < is.length)
    (h : InBounds is ds) : InBounds (swapAt is a b) (swapAt ds a b) := by
  obtain ⟨hlen, h⟩ := inBounds_iff.mp h
  refine inBounds_iff.mpr ⟨by simpa using hlen, fun c hc => ?_⟩
  rw [length_swapAt] at hc
  rw [getD_swapAt _ _ _ hc, getD_swapAt _ _ _ (hlen ▸ hc)]
  split_ifs
  · exact h a ha
  · exact h b hb
  · exact h c hc

end Swap

section Product

variable {K : Type} [CommSemiring K]

-- The elements along the axis are combined by the columns of `w`.
def along (t : Tensor K) (axis m : Nat) (w : Nat → Nat → K) : Tensor K where
  shape := t.shape.set axis m
  get := fun is =>
    ∑ k ∈ Finset.range (t.shape.getD axis 0), t.get (is.set axis k) * w k (is.getD axis 0)

def matrix (n m : Nat) (w : Nat → Nat → K) : Tensor K :=
  ⟨[n, m], fun is => w (is.getD 0 0) (is.getD 1 0)⟩

theorem setLast_eq_set {is : List Nat} {l : Nat} (h : is.length = l + 1) (k : Nat) :
    setLast is k = is.set l k := by
  obtain rfl | ⟨pre, i, rfl⟩ := List.eq_nil_or_concat' is
  · exact absurd h (by simp)
  · have hl : l = pre.length := by simpa using h.symm
    rw [setLast_append, hl]
    simp

theorem last_eq_getD {is : List Nat} {l : Nat} (h : is.length = l + 1) : last is = is.getD l 0 := by
  obtain rfl | ⟨pre, i, rfl⟩ := List.eq_nil_or_concat' is
  · exact absurd h (by simp)
  · have hl : l = pre.length := by simpa using h.symm
    rw [last_append, hl]
    simp

-- The axis is brought to the end, multiplied by the matrix and brought back.
theorem transpose_matmul_transpose {t w : Tensor K} {l axis n m : Nat}
    (hlen : t.shape.length = l + 1) (hl : 1 ≤ l) (haxis : axis ≤ l) (hn : t.shape.getD axis 0 = n)
    (hw : w.shape = [n, m]) :
    Same (((t.transpose axis l).matmul w).transpose axis l)
      (t.along axis m fun k j => w.get [k, j]) := by
  have ha : axis < t.shape.length := by omega
  have hb : l < t.shape.length := by omega
  have hswap : (swapAt t.shape axis l).length = l + 1 := by rw [length_swapAt, hlen]
  -- the shape of the product
  have hlead : bshape (swapAt t.shape axis l).dropLast.dropLast w.shape.dropLast.dropLast =
      (swapAt t.shape axis l).dropLast.dropLast := by
    rw [hw]
    have := bshape_append_self (swapAt t.shape axis l).dropLast.dropLast []
    rwa [List.append_nil] at this
  have hproduct : ((t.transpose axis l).matmul w).shape = (swapAt t.shape axis l).set l m := by
    unfold matmul transpose
    dsimp only
    rw [hlead, hw, ← setLast_eq_set hswap]
    unfold setLast
    obtain ⟨pre, i, hpre⟩ := (List.eq_nil_or_concat' (swapAt t.shape axis l).dropLast).resolve_left
      (List.ne_nil_of_length_pos (by rw [List.length_dropLast, hswap]; omega))
    rw [hpre, List.dropLast_concat, last_append]
    simp [last]
  have hshape : (((t.transpose axis l).matmul w).transpose axis l).shape = t.shape.set axis m := by
    unfold transpose at hproduct ⊢
    rw [hproduct, swapAt_swapAt_set ha hb]
  refine ⟨hshape, fun is his => ?_⟩
  rw [hshape] at his
  obtain ⟨hislen, hget⟩ := inBounds_iff.mp his
  rw [List.length_set] at hislen
  have hia : axis < is.length := by omega
  have hib : l < is.length := by omega
  have hjs : (swapAt is axis l).length = l + 1 := by
    rw [length_swapAt]
    omega
  have hlast : last (swapAt t.shape axis l) = n := by
    rw [last_eq_getD hswap, getD_swapAt _ _ _ hb, if_pos rfl, hn]
  have hlast_is : last (swapAt is axis l) = is.getD axis 0 := by
    rw [last_eq_getD hjs, getD_swapAt _ _ _ hib, if_pos rfl]
  have hj : is.getD axis 0 < m := by
    have := hget axis hia
    rwa [getD_set _ _ _ _ ha, if_pos rfl] at this
  change ∑ k ∈ Finset.range (last (swapAt t.shape axis l)),
      (t.transpose axis l).bget (setLast (swapAt is axis l) k) *
        w.bget (setLast (swapAt is axis l).dropLast k ++ [last (swapAt is axis l)]) =
    ∑ k ∈ Finset.range (t.shape.getD axis 0), t.get (is.set axis k) * w.get [k, is.getD axis 0]
  rw [hlast, hlast_is, hn]
  refine Finset.sum_congr rfl fun k hk => ?_
  have hk := Finset.mem_range.mp hk
  congr 1
  · have hset : InBounds (is.set axis k) t.shape := by
      refine inBounds_iff.mpr ⟨by rw [List.length_set, hislen], fun c hc => ?_⟩
      rw [List.length_set] at hc
      have hc' := hget c hc
      rw [getD_set _ _ _ _ (hislen ▸ hc)] at hc'
      rw [getD_set _ _ _ _ hc]
      split_ifs at hc' ⊢ with h
      · rw [h, hn]
        exact hk
      · exact hc'
    have hbounds : InBounds ((swapAt is axis l).set l k) (t.transpose axis l).shape := by
      have := inBounds_swapAt (by simpa using hia) (by simpa using hib) hset
      have heq : swapAt (is.set axis k) axis l = (swapAt is axis l).set l k := by
        rw [← swapAt_swapAt_set hia hib, swapAt_swapAt (by simpa using hia) (by simpa using hib)]
      rwa [heq] at this
    rw [setLast_eq_set hjs, bget_eq _ hbounds]
    exact congrArg t.get (swapAt_swapAt_set hia hib k)
  · have hpair : InBounds [k, is.getD axis 0] w.shape := by
      rw [hw]
      exact inBounds_cons.mpr ⟨hk, inBounds_cons.mpr ⟨hj, inBounds_nil⟩⟩
    rw [← bget_append w ((swapAt is axis l).dropLast.dropLast) hpair]
    unfold setLast
    rw [List.append_assoc]
    rfl

end Product

section Reads

variable {α : Type} {t u v : Tensor α} {axis m : Nat}

theorem Same.trans (h : Same t u) (h' : Same u v) : Same t v :=
  ⟨h.1.trans h'.1, fun is his => (h.2 is his).trans (h'.2 is (h.1 ▸ his))⟩

theorem Same.symm (h : Same t u) : Same u t :=
  ⟨h.1.symm, fun is his => (h.2 is (h.1 ▸ his)).symm⟩

-- The elements that an index of the result reads.
theorem inBounds_along {ds is : List Nat} (h : InBounds is (ds.set axis m)) {k : Nat}
    (hk : k < ds.getD axis 0) : InBounds (is.set axis k) ds := by
  obtain ⟨hlen, hget⟩ := inBounds_iff.mp h
  rw [List.length_set] at hlen
  refine inBounds_iff.mpr ⟨by rw [List.length_set, hlen], fun c hc => ?_⟩
  rw [List.length_set] at hc
  have hc' := hget c hc
  rw [getD_set _ _ _ _ (hlen ▸ hc)] at hc'
  rw [getD_set _ _ _ _ hc]
  split_ifs at hc' ⊢ with h
  · rw [h]
    exact hk
  · exact hc'

theorem getD_lt_of_inBounds {ds is : List Nat} (haxis : axis < ds.length)
    (h : InBounds is (ds.set axis m)) : is.getD axis 0 < m := by
  obtain ⟨hlen, hget⟩ := inBounds_iff.mp h
  rw [List.length_set] at hlen
  have := hget axis (hlen ▸ haxis)
  rwa [getD_set _ _ _ _ haxis, if_pos rfl] at this

end Reads

section Along

variable {K : Type} [CommSemiring K] {t u : Tensor K} {axis m : Nat} {w w' : Nat → Nat → K}

theorem along_shape : (t.along axis m w).shape = t.shape.set axis m := rfl

theorem Same.along (h : Same t u) (axis m : Nat) (w : Nat → Nat → K) :
    Same (t.along axis m w) (u.along axis m w) := by
  refine ⟨by rw [along_shape, along_shape, h.1], fun is his => ?_⟩
  unfold Tensor.along
  dsimp only
  rw [← h.1]
  refine Finset.sum_congr rfl fun k hk => ?_
  rw [h.2 _ (inBounds_along his (Finset.mem_range.mp hk))]

theorem along_congr (haxis : axis < t.shape.length)
    (h : ∀ k < t.shape.getD axis 0, ∀ j < m, w k j = w' k j) :
    Same (t.along axis m w) (t.along axis m w') := by
  refine ⟨rfl, fun is his => ?_⟩
  unfold along
  dsimp only
  refine Finset.sum_congr rfl fun k hk => ?_
  rw [h k (Finset.mem_range.mp hk) _ (getD_lt_of_inBounds haxis his)]

-- The tensor is a function of the index at one axis.
def DependsOn (t : Tensor K) (axis : Nat) (f : Nat → K) : Prop :=
  ∀ is, InBounds is t.shape → t.get is = f (is.getD axis 0)

theorem DependsOn.along_self {f : Nat → K} (haxis : axis < t.shape.length)
    (h : DependsOn t axis f) : DependsOn (t.along axis m w) axis fun j =>
      ∑ k ∈ Finset.range (t.shape.getD axis 0), f k * w k j := by
  intro is his
  obtain ⟨hlen, _⟩ := inBounds_iff.mp his
  rw [along_shape, List.length_set] at hlen
  unfold along
  dsimp only
  refine Finset.sum_congr rfl fun k hk => ?_
  rw [h _ (inBounds_along his (Finset.mem_range.mp hk)),
    getD_set _ _ _ _ (by omega), if_pos rfl]

-- Weights that sum to 1 keep it along every other axis.
theorem DependsOn.along_other {f : Nat → K} {a : Nat} (ha : a < t.shape.length) (hne : a ≠ axis)
    (haxis : axis < t.shape.length)
    (hsum : ∀ j < m, ∑ k ∈ Finset.range (t.shape.getD a 0), w k j = 1) (h : DependsOn t axis f) :
    DependsOn (t.along a m w) axis f := by
  intro is his
  obtain ⟨hlen, _⟩ := inBounds_iff.mp his
  rw [along_shape, List.length_set] at hlen
  have hread : ∀ k ∈ Finset.range (t.shape.getD a 0), t.get (is.set a k) * w k (is.getD a 0) =
      f (is.getD axis 0) * w k (is.getD a 0) := by
    intro k hk
    rw [h _ (inBounds_along his (Finset.mem_range.mp hk)), getD_set _ _ _ _ (by omega),
      if_neg fun h => hne h.symm]
  unfold along
  dsimp only
  rw [Finset.sum_congr rfl hread, ← Finset.mul_sum, hsum _ (getD_lt_of_inBounds ha his), mul_one]

end Along

section Alongs

variable {K δ : Type} [CommSemiring K]

-- One axis after another, from `axis` on.
def alongs (size : δ → Nat) (w : δ → Nat → Nat → K) : Nat → List δ → Tensor K → Tensor K
  | _, [], t => t
  | axis, d :: ds, t => alongs size w (axis + 1) ds (t.along axis (size d) (w d))

variable {n m : δ → Nat} {w w' : δ → Nat → Nat → K} {lead : List Nat} {ds : List δ} {t u : Tensor K}

theorem Same.alongs (h : Same t u) (axis : Nat) (ds : List δ) :
    Same (alongs m w axis ds t) (alongs m w axis ds u) := by
  induction ds generalizing axis t u with
  | nil => exact h
  | cons d ds ih => exact ih (h.along axis (m d) (w d)) (axis + 1)

section Head

variable {d : δ} (hshape : t.shape = lead ++ (d :: ds).map n)
include hshape

omit [CommSemiring K] in
theorem head_lt : lead.length < t.shape.length := by
  rw [hshape]
  simp

omit [CommSemiring K] in
theorem head_getD : t.shape.getD lead.length 0 = n d := by
  rw [hshape]
  simp

theorem along_head_shape (size : Nat) (v : Nat → Nat → K) :
    (t.along lead.length size v).shape = (lead ++ [size]) ++ ds.map n := by
  rw [along_shape, hshape]
  simp

end Head

theorem alongs_shape (hshape : t.shape = lead ++ ds.map n) :
    (alongs m w lead.length ds t).shape = lead ++ ds.map m := by
  induction ds generalizing lead t with
  | nil => exact hshape
  | cons d ds ih =>
      have := ih (along_head_shape hshape (m d) (w d))
      rw [List.length_append] at this
      rw [alongs]
      simpa using this

theorem alongs_congr (hshape : t.shape = lead ++ ds.map n)
    (h : ∀ d ∈ ds, ∀ k < n d, ∀ j < m d, w d k j = w' d k j) :
    Same (alongs m w lead.length ds t) (alongs m w' lead.length ds t) := by
  induction ds generalizing lead t with
  | nil => exact ⟨rfl, fun _ _ => rfl⟩
  | cons d ds ih =>
      have hhead : Same (t.along lead.length (m d) (w d)) (t.along lead.length (m d) (w' d)) := by
        refine along_congr (head_lt hshape) ?_
        rw [head_getD hshape]
        exact h d List.mem_cons_self
      have htail := ih (along_head_shape hshape (m d) (w d)) fun d' hd' =>
        h d' (List.mem_cons_of_mem _ hd')
      rw [List.length_append] at htail
      exact Same.trans htail (hhead.alongs (lead.length + 1) ds)

theorem DependsOn.alongs_other {f : Nat → K} {axis : Nat} (haxis : axis < lead.length)
    (hshape : t.shape = lead ++ ds.map n)
    (hsum : ∀ d ∈ ds, ∀ j < m d, ∑ k ∈ Finset.range (n d), w d k j = 1) (h : DependsOn t axis f) :
    DependsOn (alongs m w lead.length ds t) axis f := by
  induction ds generalizing lead t with
  | nil => exact h
  | cons d ds ih =>
      have hlt := head_lt hshape
      have hstep : DependsOn (t.along lead.length (m d) (w d)) axis f := by
        refine h.along_other hlt (by omega) (by omega) ?_
        rw [head_getD hshape]
        exact hsum d List.mem_cons_self
      have := ih (by rw [List.length_append]; omega) (along_head_shape hshape (m d) (w d))
        (fun d' hd' => hsum d' (List.mem_cons_of_mem _ hd')) hstep
      rwa [List.length_append] at this

-- What the map along one of the axes makes of a function of its index.
theorem DependsOn.alongs_at {f : Nat → K} {pre post : List δ} {d : δ}
    (hshape : t.shape = lead ++ (pre ++ d :: post).map n)
    (hsum : ∀ d' ∈ pre ++ d :: post, ∀ j < m d', ∑ k ∈ Finset.range (n d'), w d' k j = 1)
    (h : DependsOn t (lead.length + pre.length) f) :
    DependsOn (alongs m w lead.length (pre ++ d :: post) t) (lead.length + pre.length) fun j =>
      ∑ k ∈ Finset.range (n d), f k * w d k j := by
  induction pre generalizing lead t with
  | nil =>
      simp only [List.nil_append] at hshape hsum ⊢
      have hself := h.along_self (head_lt hshape) (m := m d) (w := w d)
      rw [head_getD hshape] at hself
      have hlt : lead.length < (lead ++ [m d]).length := by simp
      have := hself.alongs_other hlt (along_head_shape hshape (m d) (w d)) fun d' hd' =>
        hsum d' (List.mem_cons_of_mem _ hd')
      rwa [List.length_append] at this
  | cons p pre ih =>
      simp only [List.cons_append] at hshape hsum ⊢
      have hlt := head_lt hshape
      have hlen : t.shape.length = lead.length + (1 + (pre.length + (1 + post.length))) := by
        rw [hshape]
        simp
        omega
      have hstep : DependsOn (t.along lead.length (m p) (w p))
          (lead.length + (p :: pre).length) f := by
        refine h.along_other hlt (by simp) (by rw [hlen, List.length_cons]; omega) ?_
        rw [head_getD hshape]
        exact hsum p List.mem_cons_self
      have harith : lead.length + (p :: pre).length = (lead ++ [m p]).length + pre.length := by
        rw [List.length_append, List.length_cons, List.length_singleton]
        omega
      rw [harith] at hstep ⊢
      have := ih (along_head_shape hshape (m p) (w p))
        (fun d' hd' => hsum d' (List.mem_cons_of_mem _ hd')) hstep
      rwa [List.length_append] at this ⊢

-- Maps that agree on every tensor have the same weights.
theorem weights_of_alongs (hpos : 0 ∉ lead) (hm : ∀ d ∈ ds, 0 < m d)
    (hsum : ∀ d ∈ ds, ∀ j < m d, ∑ k ∈ Finset.range (n d), w d k j = 1)
    (hsum' : ∀ d ∈ ds, ∀ j < m d, ∑ k ∈ Finset.range (n d), w' d k j = 1)
    (h : ∀ t : Tensor K, t.shape = lead ++ ds.map n →
      Same (alongs m w lead.length ds t) (alongs m w' lead.length ds t)) :
    ∀ d ∈ ds, ∀ k < n d, ∀ j < m d, w d k j = w' d k j := by
  intro d hd k hk j hj
  obtain ⟨pre, post, rfl⟩ := List.append_of_mem hd
  let t : Tensor K := ⟨lead ++ (pre ++ d :: post).map n, fun is =>
    if is.getD (lead.length + pre.length) 0 = k then 1 else 0⟩
  have ht : DependsOn t (lead.length + pre.length) fun i => if i = k then 1 else 0 :=
    fun is _ => rfl
  have hw : DependsOn (alongs m w lead.length (pre ++ d :: post) t) (lead.length + pre.length)
      fun j => ∑ i ∈ Finset.range (n d), (if i = k then 1 else 0) * w d i j :=
    ht.alongs_at rfl hsum
  have hw' : DependsOn (alongs m w' lead.length (pre ++ d :: post) t) (lead.length + pre.length)
      fun j => ∑ i ∈ Finset.range (n d), (if i = k then 1 else 0) * w' d i j :=
    ht.alongs_at rfl hsum'
  have hshape : ∀ v : δ → Nat → Nat → K, (alongs m v lead.length (pre ++ d :: post) t).shape =
      lead ++ (pre ++ d :: post).map m := fun v => alongs_shape rfl
  -- an index of the result with `j` at the axis
  let is : List Nat := List.replicate lead.length 0 ++ (List.replicate pre.length 0 ++
    j :: List.replicate post.length 0)
  have hzeros : ∀ l : List Nat, 0 ∉ l → InBounds (List.replicate l.length 0) l := by
    intro l hl
    induction l with
    | nil => exact inBounds_nil
    | cons a l ih =>
        rw [List.mem_cons, not_or] at hl
        exact inBounds_cons.mpr ⟨Nat.pos_of_ne_zero fun h => hl.1 h.symm, ih hl.2⟩
  have hpart : ∀ l : List δ, (∀ d ∈ l, 0 < m d) →
      InBounds (List.replicate l.length 0) (l.map m) := by
    intro l hl
    have := hzeros (l.map m) fun h0 => by
      obtain ⟨d, hd, h⟩ := List.mem_map.mp h0
      have := hl d hd
      omega
    rwa [List.length_map] at this
  have his : InBounds is (lead ++ (pre ++ d :: post).map m) := by
    rw [List.map_append, List.map_cons]
    refine List.rel_append (hzeros lead hpos) (List.rel_append (hpart pre fun d hd => hm d ?_)
      (inBounds_cons.mpr ⟨hj, hpart post fun d hd => hm d ?_⟩))
    · exact List.mem_append_left _ hd
    · exact List.mem_append_right _ (List.mem_cons_of_mem _ hd)
  have hget : is.getD (lead.length + pre.length) 0 = j := by simp [is]
  have hsame := (h t rfl).2 is (hshape w ▸ his)
  rw [hw is (hshape w ▸ his), hw' is (hshape w' ▸ his), hget] at hsame
  have hone : ∀ v : Nat → K, ∑ i ∈ Finset.range (n d), (if i = k then 1 else 0) * v i = v k := by
    intro v
    simp [ite_mul, Finset.sum_ite_eq', hk]
  exact (hone fun i => w d i j).symm.trans (hsame.trans (hone fun i => w' d i j))

end Alongs

end TTXla.Tensor
