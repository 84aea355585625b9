import TTXla.PJRT.Tensor.Ownership

-- Setting the tensors of buffers, and destroying buffers.
namespace TTXla.PJRT.World

open Excepts

variable {RT : Type} {w : World RT} {locals : TensorPtr → Nat} {cut : TensorPtr → Option Nat}
  {t s : TensorPtr} {tensor stensor : PjrtTensor RT} {b : BufferId} {r : PjrtTensorRef}

theorem ref_of_buffer (hb : w.buffers b = some r) : w.ref b = r.m_tensor := by
  unfold ref
  rw [hb]
  rfl

-- The checks before the reference is changed.
def Accepts (w : World RT) (b : BufferId) (tensor : Option TensorPtr) : Prop :=
  ∀ t, tensor = some t → ∃ new_tensor, w.tensors t = some new_tensor ∧
    some b ∈ new_tensor.m_shards

theorem reset_checks {tensor : Option TensorPtr} (hacc : w.Accepts b tensor)
    (hb : w.buffers b = some r) :
    w.reset b tensor (tensor.map fun _ => b) = (do
      let w ← match r.m_shard with
        | some m_shard => do
            let t ← get r.m_tensor .null_dereference
            w.remove_shard t m_shard
        | none => pure w
      let w := w.set_ref b ⟨tensor, tensor.map fun _ => b⟩
      match r.m_tensor with
        | some t => w.release t
        | none => return w) := by
  have hbuffer : w.buffer b = .ok r := get_eq_ok.mpr hb
  unfold reset
  cases tensor with
  | none =>
      rw [ensure_of (by rfl), hbuffer]
      rfl
  | some t =>
      obtain ⟨new_tensor, ht, hmem⟩ := hacc t rfl
      rw [ensure_of (by rfl), hbuffer]
      simp only [Option.map_some, deref_eq ht]
      change (ensure (some b ∈ new_tensor.m_shards) _ >>= _) = _
      rw [ensure_of hmem]
      rfl

-- A buffer leaves its tensor, and what is left of the tensor is released.
theorem reset_cases {w' : World RT} {new_tensor : Option TensorPtr} {shard : Option BufferId}
    (h : w.reset b new_tensor shard = .ok w') :
    ∃ w₁, (w₁ = w ∨ ∃ t s, w.remove_shard t s = .ok w₁) ∧
      (w' = w₁.set_ref b ⟨new_tensor, shard⟩ ∨
        ∃ t, (w₁.set_ref b ⟨new_tensor, shard⟩).release t = .ok w') := by
  have hlast : ∀ {m_tensor : Option TensorPtr} {w₁ : World RT}, (match m_tensor with
      | some t => (w₁.set_ref b ⟨new_tensor, shard⟩).release t
      | none => pure (w₁.set_ref b ⟨new_tensor, shard⟩)) = Except.ok w' →
      w' = w₁.set_ref b ⟨new_tensor, shard⟩ ∨
        ∃ t, (w₁.set_ref b ⟨new_tensor, shard⟩).release t = .ok w' := by
    intro m_tensor w₁ h
    cases m_tensor with
    | none =>
        cases h
        exact .inl rfl
    | some t => exact .inr ⟨t, h⟩
  have hshard : ∀ {ref : PjrtTensorRef}, (match ref.m_shard with
      | some m_shard => do
          let t ← get ref.m_tensor .null_dereference
          let w₁ ← w.remove_shard t m_shard
          match ref.m_tensor with
            | some t => (w₁.set_ref b ⟨new_tensor, shard⟩).release t
            | none => pure (w₁.set_ref b ⟨new_tensor, shard⟩)
      | none => match ref.m_tensor with
            | some t => (w.set_ref b ⟨new_tensor, shard⟩).release t
            | none => pure (w.set_ref b ⟨new_tensor, shard⟩)) = Except.ok w' →
      ∃ w₁, (w₁ = w ∨ ∃ t s, w.remove_shard t s = .ok w₁) ∧
        (w' = w₁.set_ref b ⟨new_tensor, shard⟩ ∨
          ∃ t, (w₁.set_ref b ⟨new_tensor, shard⟩).release t = .ok w') := by
    intro ref h
    split at h
    · obtain ⟨t, -, h⟩ := bind_eq_ok.mp h
      obtain ⟨w₁, hremoved, h⟩ := bind_eq_ok.mp h
      exact ⟨w₁, .inr ⟨t, _, hremoved⟩, hlast h⟩
    · exact ⟨w, .inl rfl, hlast h⟩
  unfold reset at h
  obtain ⟨-, -, h⟩ := bind_eq_ok.mp h
  cases new_tensor with
  | none =>
      obtain ⟨ref, -, h⟩ := bind_eq_ok.mp h
      exact hshard h
  | some t =>
      obtain ⟨tensor, -, h⟩ := bind_eq_ok.mp h
      obtain ⟨u, -, h⟩ := bind_eq_ok.mp h
      obtain ⟨ref, -, h⟩ := bind_eq_ok.mp h
      exact hshard h

theorem Owned.reset_of_none (h : Owned locals cut w) {tensor : Option TensorPtr}
    (hacc : w.Accepts b tensor) (hb : w.buffers b = some r) (hr : r.m_tensor = none) :
    w.reset b tensor (tensor.map fun _ => b) =
      .ok (w.set_ref b ⟨tensor, tensor.map fun _ => b⟩) := by
  have hshard : r.m_shard = none := by
    rw [h.shard hb, hr]
    rfl
  rw [reset_checks hacc hb, hshard, hr]
  rfl

-- The world after a buffer has moved from a tensor to another one, or to none.
def moved (w : World RT) (b : BufferId) (s : TensorPtr) (stensor : PjrtTensor RT)
    (tensor : Option TensorPtr) : World RT :=
  ((w.left b s stensor).set_ref b ⟨tensor, tensor.map fun _ => b⟩).dropped s
    { stensor with m_shards := hide b stensor.m_shards }

theorem Owned.reset_of_some (h : Owned locals cut w) {tensor : Option TensorPtr}
    (hacc : w.Accepts b tensor) (hb : w.buffers b = some r) (hr : r.m_tensor = some s)
    (hs : w.tensors s = some stensor) {locals' : TensorPtr → Nat} {cut' : TensorPtr → Option Nat}
    (h' : Owned locals' cut'
      ((w.left b s stensor).set_ref b ⟨tensor, tensor.map fun _ => b⟩)) :
    w.reset b tensor (tensor.map fun _ => b) = .ok (w.moved b s stensor tensor) := by
  have hshard : r.m_shard = some b := by
    rw [h.shard hb, hr]
    rfl
  have hs' : ((w.left b s stensor).set_ref b ⟨tensor, tensor.map fun _ => b⟩).tensors s =
      some { stensor with m_shards := hide b stensor.m_shards } := by
    rw [set_ref_tensors, left, set_ref_tensors, set_tensor_tensors, if_pos rfl]
  have hrelease := h'.release_eq hs'
  rw [reset_checks hacc hb, hshard, hr]
  change (w.remove_shard s b >>= _) = _
  rw [h.remove_shard_eq hs ((ref_of_buffer hb).trans hr)]
  unfold left at hrelease
  rw [set_ref_set_ref] at hrelease
  refine Eq.trans hrelease ?_
  unfold moved left
  rw [set_ref_set_ref]

-- The tensors that are older than the ones that are built are not cut.
def Whole (n : TensorPtr) (cut : TensorPtr → Option Nat) : Prop := ∀ t < n, cut t = none

theorem Owned.map_without (h : Owned locals cut w) {n u : TensorPtr} (hwhole : Whole n cut)
    (hu : u < n) (hu' : w.tensors u = some tensor) (href : w.ref b ≠ some u) :
    tensor.m_shards.map (without [b]) = tensor.m_shards := by
  have hattached : attached cut u tensor = tensor.m_shards := by
    unfold attached
    rw [hwhole u hu]
  have hcount := h.shards hu' b
  rw [hattached, if_neg href] at hcount
  rw [← hide_eq_map (by omega)]
  exact List.replace_of_not_mem (List.count_eq_zero.mp hcount)

theorem Owned.frame_of_join (h : Owned locals cut w) (hb : w.buffers b = some r)
    (hr : r.m_tensor = none) {n : TensorPtr} (hwhole : Whole n cut) (ref : PjrtTensorRef) :
    Frame n [b] w (w.set_ref b ref) where
  ref := fun b' hb' => by
    rw [set_ref_ref, if_neg (by simpa using hb')]
  live := fun b' => by
    rw [set_ref_buffers]
    split
    · rename_i hbb
      rw [hbb, hb]
      rfl
    · rfl
  kept := fun {u tensor'} hu hu' => by
    refine ⟨tensor', hu', rfl, (h.map_without hwhole hu hu' ?_).symm⟩
    rw [ref_of_buffer hb, hr]
    exact (Option.some_ne_none u).symm

theorem Owned.frame_of_moved (h : Owned locals cut w) (hb : w.buffers b = some r)
    (hr : r.m_tensor = some s) (hs : w.tensors s = some stensor) {n : TensorPtr}
    (hwhole : Whole n cut) (tensor : Option TensorPtr) :
    Frame n [b] w (w.moved b s stensor tensor) where
  ref := fun b' hb' => by
    rw [List.mem_singleton] at hb'
    rw [moved, dropped_ref, set_ref_ref, if_neg hb', left, set_ref_ref, if_neg hb', set_tensor_ref]
  live := fun b' => by
    rw [moved, dropped_buffers, set_ref_buffers]
    split
    · rename_i hbb
      rw [hbb, hb]
      rfl
    · rename_i hbb
      rw [left, set_ref_buffers, if_neg hbb, set_tensor_buffers]
  kept := fun {u tensor'} hu hu' => by
    have hattached : ∀ {T : PjrtTensor RT}, attached cut u T = T.m_shards := by
      intro T
      unfold attached
      rw [hwhole u hu]
    rcases dropped_cases hu' with ⟨rfl, -, rfl⟩ | ⟨hne, hu''⟩
    · have hcount := h.shards hs b
      rw [hattached, ref_of_buffer hb, hr, if_pos rfl] at hcount
      exact ⟨stensor, hs, rfl, hide_eq_map (by omega)⟩
    · rw [set_ref_tensors, left, set_ref_tensors, set_tensor_tensors, if_neg hne] at hu''
      refine ⟨tensor', hu'', rfl, (h.map_without hwhole hu hu'' ?_).symm⟩
      rw [ref_of_buffer hb, hr]
      exact fun hst => hne (Option.some.inj hst).symm

theorem drop_hide {l : List (Option BufferId)} {i : Nat} (h : some b ∈ l.take i) :
    (hide b l).drop i = l.drop i := by
  have hlen : (hide b (l.take i)).length = (l.take i).length := List.length_replace
  have hsplit : hide b l = hide b (l.take i) ++ l.drop i := by
    rw [← hide_append h, List.take_append_drop]
  by_cases hi : i ≤ l.length
  · rw [List.length_take, Nat.min_eq_left hi] at hlen
    rw [hsplit, List.drop_append, hlen, Nat.sub_self, List.drop_zero, List.drop_of_length_le
      (by omega), List.nil_append]
  · have hlong : l.length ≤ i := by omega
    have hlen' : (hide b l).length = l.length := List.length_replace
    rw [List.drop_of_length_le hlong, List.drop_of_length_le (hlen' ▸ hlong)]

-- What setting the next shard of the tensor that is built leaves of it.
structure Grown (b : BufferId) (t : TensorPtr) (i : Nat) (w : World RT) (tensor : PjrtTensor RT)
    (w' : World RT) (tensor' : PjrtTensor RT) : Prop where
  ref : w'.ref b = some t
  next_uid : w'.next_uid = w.next_uid
  built : w'.tensors t = some tensor'
  runtime_tensor : tensor'.m_runtime_tensor = tensor.m_runtime_tensor
  length : tensor'.m_shards.length = tensor.m_shards.length
  rest : tensor'.m_shards.drop i = tensor.m_shards.drop i
  same : w.ref b ≠ some t → tensor'.m_shards = tensor.m_shards

-- A shard takes over a pointer to the tensor that is built, and leaves the one it had.
theorem Owned.reset_spec (h : Owned locals cut w) (ht : w.tensors t = some tensor)
    (hb : w.buffers b = some r) {i : Nat} (hcut : cut t = some i)
    (hi : tensor.m_shards[i]? = some (some b)) (hlocal : 0 < locals t) {n : TensorPtr}
    (hwhole : Whole n cut) (hn : n ≤ t) :
    ∃ w' tensor', w.reset b (some t) (some b) = .ok w' ∧
      Owned (Function.update locals t (locals t - 1)) (Function.update cut t (some (i + 1))) w' ∧
      Frame n [b] w w' ∧ Grown b t i w tensor w' tensor' := by
  have hacc : w.Accepts b (some t) := by
    intro t' ht'
    cases ht'
    exact ⟨tensor, ht, List.mem_of_getElem? hi⟩
  cases hr : r.m_tensor with
  | none =>
      have href : w.ref b = none := (ref_of_buffer hb).trans hr
      refine ⟨_, tensor, h.reset_of_none hacc hb hr, h.join ht href hcut hi hlocal,
        h.frame_of_join hb hr hwhole _, ?_, rfl, ht, rfl, rfl, rfl, fun _ => rfl⟩
      rw [set_ref_ref, if_pos rfl]
  | some s =>
      have href : w.ref b = some s := (ref_of_buffer hb).trans hr
      obtain ⟨stensor, hs⟩ := h.referenced href
      have hleft := h.leave hs href
      -- the tensor that is built loses only a shard that is already set
      obtain ⟨tensor₂, ht₂, hrt₂, hlen₂, hrest₂, hsame₂⟩ : ∃ tensor₂,
          (w.left b s stensor).tensors t = some tensor₂ ∧
          tensor₂.m_runtime_tensor = tensor.m_runtime_tensor ∧
          tensor₂.m_shards.length = tensor.m_shards.length ∧
          tensor₂.m_shards.drop i = tensor.m_shards.drop i ∧
          (s ≠ t → tensor₂ = tensor) := by
        by_cases hst : t = s
        · subst hst
          obtain rfl := Option.some.inj (ht.symm.trans hs)
          have hmem := h.mem_attached ht href
          unfold attached at hmem
          rw [hcut] at hmem
          refine ⟨{ tensor with m_shards := hide b tensor.m_shards }, ?_, rfl,
            List.length_replace, drop_hide hmem, fun hne => absurd rfl hne⟩
          rw [left, set_ref_tensors, set_tensor_self]
        · refine ⟨tensor, ?_, rfl, rfl, rfl, fun _ => rfl⟩
          rw [left, set_ref_tensors, set_tensor_tensors, if_neg hst, ht]
      have hi₂ : tensor₂.m_shards[i]? = some (some b) := by
        rw [← List.head?_drop, hrest₂, List.head?_drop, hi]
      have hnone : (w.left b s stensor).ref b = none := by
        rw [left, set_ref_ref, if_pos rfl]
      have hlocal₂ : 0 < Function.update locals s (locals s + 1) t := by
        rw [Function.update_apply]
        split <;> omega
      have hjoined := hleft.join ht₂ hnone hcut hi₂ hlocal₂
      have hs' : ((w.left b s stensor).set_ref b ⟨some t, some b⟩).tensors s =
          some { stensor with m_shards := hide b stensor.m_shards } := by
        rw [set_ref_tensors, left, set_ref_tensors, set_tensor_self]
      have hreleased := hjoined.release hs' (by
        rw [Function.update_apply]
        split
        · rename_i hst
          subst hst
          rw [Function.update_self]
          omega
        · rw [Function.update_self]
          omega)
      have hreset := h.reset_of_some hacc hb hr hs hjoined
      have hrefb : (w.moved b s stensor (some t)).ref b = some t := by
        rw [moved, dropped_ref, set_ref_ref, if_pos rfl]
      obtain ⟨tensor', ht'⟩ := hreleased.referenced hrefb
      have hform : tensor'.m_runtime_tensor = tensor₂.m_runtime_tensor ∧
          tensor'.m_shards = tensor₂.m_shards := by
        rw [set_ref_tensors] at hs'
        rcases dropped_cases ht' with ⟨rfl, -, rfl⟩ | ⟨-, ht'⟩
        · obtain rfl := Option.some.inj (hs'.symm.trans ht₂)
          exact ⟨rfl, rfl⟩
        · obtain rfl := Option.some.inj (ht₂.symm.trans ht')
          exact ⟨rfl, rfl⟩
      refine ⟨_, tensor', hreset, hreleased.congr (fun u => ?_) fun _ => rfl,
        h.frame_of_moved hb hr hs hwhole _, hrefb, ?_, ht', hform.1.trans hrt₂, ?_, ?_, ?_⟩
      · by_cases hus : u = s
        · subst hus
          by_cases hut : u = t
          · subst hut
            simp
          · simp [hut]
        · by_cases hut : u = t
          · subst hut
            simp [hus]
          · simp [hus, hut]
      · rw [moved, dropped_next_uid]
        rfl
      · rw [hform.2, hlen₂]
      · rw [hform.2, hrest₂]
      · intro hne
        rw [hform.2, hsame₂ fun hst => hne (hst ▸ href)]

-- A shard gets the tensor that is built.
theorem Owned.setPjrtTensor_spec (h : Owned locals cut w) (ht : w.tensors t = some tensor)
    (hb : w.buffers b = some r) {i : Nat} (hcut : cut t = some i)
    (hi : tensor.m_shards[i]? = some (some b)) {n : TensorPtr} (hwhole : Whole n cut)
    (hn : n ≤ t) :
    ∃ w' tensor', w.setPjrtTensor b t = .ok w' ∧
      Owned locals (Function.update cut t (some (i + 1))) w' ∧ Frame n [b] w w' ∧
      Grown b t i w tensor w' tensor' := by
  obtain ⟨hshare, h₁⟩ := h.share ht
  obtain ⟨w', tensor', hreset, howned, hframe, hgrown⟩ := h₁.reset_spec
    (set_tensor_self w t _) hb hcut hi (by rw [Function.update_self]; exact Nat.succ_pos _)
    hwhole hn
  refine ⟨w', tensor', ?_, howned.congr (fun u => ?_) fun _ => rfl, ?_, ?_⟩
  · unfold setPjrtTensor
    rw [hshare]
    exact hreset
  · by_cases hu : u = t
    · subst hu
      simp
    · simp [hu]
  · refine ⟨hframe.ref, hframe.live, fun {u tensor''} hu hu' => ?_⟩
    obtain ⟨T, hT, hrt, hshards⟩ := hframe.kept hu hu'
    rw [set_tensor_tensors, if_neg (Nat.ne_of_lt (Nat.lt_of_lt_of_le hu hn))] at hT
    exact ⟨T, hT, hrt, hshards⟩
  · exact ⟨hgrown.ref, hgrown.next_uid, hgrown.built, hgrown.runtime_tensor, hgrown.length,
      hgrown.rest, hgrown.same⟩

end TTXla.PJRT.World
