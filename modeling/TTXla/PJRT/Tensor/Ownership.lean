import TTXla.PJRT.Tensor
import Mathlib.Data.Finset.Card
import Mathlib.Data.List.Count

-- Which buffers own a tensor, while its shards are being set and afterwards.
namespace TTXla.PJRT.World

open Excepts

variable {RT : Type}

def ref (w : World RT) (b : BufferId) : Option TensorPtr := (w.buffers b).bind (·.m_tensor)

-- While a tensor is built, only its first shards refer to it.
def attached (cut : TensorPtr → Option Nat) (t : TensorPtr) (tensor : PjrtTensor RT) :
    List (Option BufferId) :=
  match cut t with
  | some i => tensor.m_shards.take i
  | none => tensor.m_shards

-- The owners of each tensor are the buffers that refer to it and the running functions, and
-- each buffer that refers to it is one of its shards.
structure Owned (locals : TensorPtr → Nat) (cut : TensorPtr → Option Nat) (w : World RT) :
    Prop where
  shards : ∀ {t tensor}, w.tensors t = some tensor → ∀ b,
    (attached cut t tensor).count (some b) = if w.ref b = some t then 1 else 0
  counted : ∀ {t tensor}, w.tensors t = some tensor → ∃ owners : Finset BufferId,
    (∀ b, b ∈ owners ↔ w.ref b = some t) ∧ tensor.use_count = owners.card + locals t
  used : ∀ {t tensor}, w.tensors t = some tensor → 0 < tensor.use_count
  referenced : ∀ {b t}, w.ref b = some t → ∃ tensor, w.tensors t = some tensor
  pooled : ∀ t, t ∈ w.m_tensors ↔ ∃ tensor, w.tensors t = some tensor
  shard : ∀ {b ref}, w.buffers b = some ref → ref.m_shard = ref.m_tensor.map fun _ => b
  fresh : ∀ {t}, w.next_uid ≤ t → w.tensors t = none

section Simp

variable (w : World RT) (t : TensorPtr) (b : BufferId) (tensor : PjrtTensor RT)
  (r : PjrtTensorRef)

@[simp] theorem set_tensor_ref : (w.set_tensor t tensor).ref = w.ref := rfl

@[simp] theorem set_tensor_buffers : (w.set_tensor t tensor).buffers = w.buffers := rfl

@[simp] theorem set_tensor_pool : (w.set_tensor t tensor).m_tensors = w.m_tensors := rfl

@[simp] theorem set_tensor_next_uid : (w.set_tensor t tensor).next_uid = w.next_uid := rfl

@[simp] theorem set_tensor_tensors (t' : TensorPtr) : (w.set_tensor t tensor).tensors t' =
    if t' = t then some tensor else w.tensors t' := Function.update_apply ..

theorem set_tensor_self : (w.set_tensor t tensor).tensors t = some tensor :=
  Function.update_self ..

@[simp] theorem set_ref_tensors : (w.set_ref b r).tensors = w.tensors := rfl

@[simp] theorem set_ref_pool : (w.set_ref b r).m_tensors = w.m_tensors := rfl

@[simp] theorem set_ref_next_uid : (w.set_ref b r).next_uid = w.next_uid := rfl

@[simp] theorem set_ref_buffers (b' : BufferId) : (w.set_ref b r).buffers b' =
    if b' = b then some r else w.buffers b' := Function.update_apply ..

@[simp] theorem set_ref_ref (b' : BufferId) : (w.set_ref b r).ref b' =
    if b' = b then r.m_tensor else w.ref b' := by
  unfold ref
  rw [set_ref_buffers]
  split
  · rfl
  · rfl

theorem set_ref_set_ref (r' : PjrtTensorRef) : (w.set_ref b r).set_ref b r' = w.set_ref b r' := by
  unfold set_ref
  dsimp only
  rw [Function.update_idem]

end Simp

variable {w : World RT} {locals : TensorPtr → Nat} {cut : TensorPtr → Option Nat}
  {t : TensorPtr} {tensor : PjrtTensor RT} {b : BufferId}

theorem deref_eq (h : w.tensors t = some tensor) : w.deref t = .ok tensor := get_eq_ok.mpr h

theorem Owned.congr (h : Owned locals cut w) {locals' : TensorPtr → Nat}
    {cut' : TensorPtr → Option Nat} (hlocals : ∀ t, locals' t = locals t)
    (hcut : ∀ {t tensor}, w.tensors t = some tensor →
      attached cut' t tensor = attached cut t tensor) : Owned locals' cut' w where
  shards := fun ht b => by
    rw [hcut ht]
    exact h.shards ht b
  counted := fun {t} _ ht => by
    rw [hlocals t]
    exact h.counted ht
  used := h.used
  referenced := h.referenced
  pooled := h.pooled
  shard := h.shard
  fresh := h.fresh

theorem set_tensor_cases {s : TensorPtr} {tensor tensor' : PjrtTensor RT}
    (hs : (w.set_tensor t tensor).tensors s = some tensor') :
    (s = t ∧ tensor' = tensor) ∨ (s ≠ t ∧ w.tensors s = some tensor') := by
  rw [set_tensor_tensors] at hs
  split at hs
  · exact Or.inl ⟨‹_›, (Option.some.inj hs).symm⟩
  · exact Or.inr ⟨‹_›, hs⟩

-- The functions hold more pointers to a tensor, or fewer ones.
theorem Owned.recount (h : Owned locals cut w) (ht : w.tensors t = some tensor) {n l : Nat}
    (hn : 0 < n) (hcount : n + locals t = tensor.use_count + l) :
    Owned (Function.update locals t l) cut (w.set_tensor t { tensor with use_count := n }) where
  shards := fun hs b => by
    rcases set_tensor_cases hs with ⟨rfl, rfl⟩ | ⟨-, hs⟩
    · exact h.shards ht b
    · exact h.shards hs b
  counted := fun hs => by
    rcases set_tensor_cases hs with ⟨rfl, rfl⟩ | ⟨hne, hs⟩
    · obtain ⟨owners, howners, hold⟩ := h.counted ht
      refine ⟨owners, howners, ?_⟩
      rw [Function.update_self]
      dsimp only
      omega
    · rw [Function.update_of_ne hne]
      exact h.counted hs
  used := fun hs => by
    rcases set_tensor_cases hs with ⟨-, rfl⟩ | ⟨-, hs⟩
    · exact hn
    · exact h.used hs
  referenced := fun hb => by
    obtain ⟨tensor', hs⟩ := h.referenced hb
    rw [set_tensor_tensors]
    split
    · exact ⟨_, rfl⟩
    · exact ⟨tensor', hs⟩
  pooled := fun s => by
    rw [set_tensor_pool, h.pooled s, set_tensor_tensors]
    split
    · rename_i hst
      subst hst
      exact ⟨fun _ => ⟨_, rfl⟩, fun _ => ⟨tensor, ht⟩⟩
    · exact Iff.rfl
  shard := h.shard
  fresh := fun {s} hs => by
    have hst : s ≠ t := by
      intro hst
      have := h.fresh hs
      rw [hst, ht] at this
      cases this
    rw [set_tensor_tensors, if_neg hst]
    exact h.fresh hs

-- A function takes a pointer.
theorem Owned.share (h : Owned locals cut w) (ht : w.tensors t = some tensor) :
    w.share t = .ok (w.set_tensor t { tensor with use_count := tensor.use_count + 1 }) ∧
      Owned (Function.update locals t (locals t + 1)) cut
        (w.set_tensor t { tensor with use_count := tensor.use_count + 1 }) := by
  refine ⟨?_, h.recount ht (Nat.succ_pos _) (by omega)⟩
  unfold World.share
  rw [deref_eq ht]
  rfl

-- The world after a pointer is dropped.
def dropped (w : World RT) (t : TensorPtr) (tensor : PjrtTensor RT) : World RT :=
  if tensor.use_count = 1 then
    { w with
      m_tensors := w.m_tensors.erase t
      tensors := Function.update w.tensors t none }
  else w.set_tensor t { tensor with use_count := tensor.use_count - 1 }

theorem Owned.release_eq (h : Owned locals cut w) (ht : w.tensors t = some tensor) :
    w.release t = .ok (w.dropped t tensor) := by
  have hpool : t ∈ w.m_tensors := (h.pooled t).mpr ⟨tensor, ht⟩
  unfold World.release dropped
  rw [deref_eq ht]
  change (if tensor.use_count = 1 then _ else _) = _
  by_cases hone : tensor.use_count = 1
  · rw [if_pos hone, if_pos hone]
    unfold World.erase
    rw [ensure_of hpool]
    rfl
  · rw [if_neg hone, if_neg hone]
    rfl

-- Dropping the last pointer destroys the tensor.
theorem Owned.release (h : Owned locals cut w) (ht : w.tensors t = some tensor)
    (hlocal : 0 < locals t) :
    Owned (Function.update locals t (locals t - 1)) cut (w.dropped t tensor) := by
  obtain ⟨owners, howners, hcount⟩ := h.counted ht
  have hused := h.used ht
  unfold dropped
  by_cases hone : tensor.use_count = 1
  · rw [if_pos hone]
    -- no buffer refers to the tensor
    have hnone : ∀ b, w.ref b ≠ some t := by
      intro b hb
      have := Finset.card_pos.mpr ⟨b, (howners b).mpr hb⟩
      omega
    have hcase : ∀ {s tensor'}, Function.update w.tensors t none s = some tensor' →
        s ≠ t ∧ w.tensors s = some tensor' := by
      intro s tensor' hs
      rw [Function.update_apply] at hs
      split at hs
      · cases hs
      · exact ⟨‹_›, hs⟩
    refine ⟨fun hs => h.shards (hcase hs).2, fun hs => ?_, fun hs => h.used (hcase hs).2,
      fun {b s} hb => ?_, fun s => ?_, h.shard, fun {s} hs => ?_⟩
    · rw [Function.update_of_ne (hcase hs).1]
      exact h.counted (hcase hs).2
    · have hne : s ≠ t := by
        intro hst
        exact hnone b (hst ▸ hb)
      obtain ⟨tensor', hs⟩ := h.referenced hb
      exact ⟨tensor', (Function.update_of_ne hne _ _).trans hs⟩
    · rw [Finset.mem_erase, h.pooled]
      dsimp only
      rw [Function.update_apply]
      split
      · simp_all
      · simp_all
    · dsimp only
      rw [Function.update_apply, h.fresh hs, ite_self]
  · rw [if_neg hone]
    exact h.recount ht (by omega) (by omega)

-- Where the shard of a buffer was, there is `nullptr`.
def hide (b : BufferId) (m_shards : List (Option BufferId)) : List (Option BufferId) :=
  m_shards.replace (some b) none

theorem hide_append {b : BufferId} {l l' : List (Option BufferId)} (h : some b ∈ l) :
    hide b (l ++ l') = hide b l ++ l' := List.replace_append_left h

theorem count_hide {l : List (Option BufferId)} (h : l.count (some b) = 1) (b' : BufferId) :
    (hide b l).count (some b') = if b' = b then 0 else l.count (some b') := by
  unfold hide
  induction l with
  | nil => simp at h
  | cons x l ih =>
      by_cases hx : x = some b
      · subst hx
        rw [List.count_cons_self] at h
        rw [List.replace_cons_self, List.count_cons_of_ne (by simp)]
        split
        · rename_i hb
          subst hb
          omega
        · rename_i hb
          rw [List.count_cons_of_ne (by simpa using Ne.symm hb)]
      · rw [List.count_cons_of_ne hx] at h
        have hbeq : (some b == x) = false := beq_eq_false_iff_ne.mpr (Ne.symm hx)
        rw [List.replace_cons, hbeq]
        dsimp only
        rw [List.count_cons, ih h, List.count_cons]
        split
        · rename_i hb
          subst hb
          simp [hx]
        · rfl

theorem attached_prefix (cut : TensorPtr → Option Nat) (t : TensorPtr) (tensor : PjrtTensor RT) :
    ∃ rest, tensor.m_shards = attached cut t tensor ++ rest := by
  unfold attached
  split
  · exact ⟨_, (List.take_append_drop _ _).symm⟩
  · exact ⟨[], (List.append_nil _).symm⟩

theorem attached_hide (cut : TensorPtr → Option Nat) (t : TensorPtr) (tensor : PjrtTensor RT)
    (b : BufferId) : attached cut t { tensor with m_shards := hide b tensor.m_shards } =
      hide b (attached cut t tensor) := by
  unfold attached
  split
  · exact List.replace_take.symm
  · rfl

-- The world after a buffer has left its tensor, whose pointer a function holds.
def left (w : World RT) (b : BufferId) (t : TensorPtr) (tensor : PjrtTensor RT) : World RT :=
  (w.set_tensor t { tensor with m_shards := hide b tensor.m_shards }).set_ref b ⟨none, none⟩

theorem Owned.mem_attached (h : Owned locals cut w) (ht : w.tensors t = some tensor)
    (hb : w.ref b = some t) : some b ∈ attached cut t tensor := by
  apply List.count_pos_iff.mp
  rw [h.shards ht, if_pos hb]
  exact Nat.one_pos

theorem Owned.remove_shard_eq (h : Owned locals cut w) (ht : w.tensors t = some tensor)
    (hb : w.ref b = some t) :
    w.remove_shard t b =
      .ok (w.set_tensor t { tensor with m_shards := hide b tensor.m_shards }) := by
  have hmem : some b ∈ tensor.m_shards := by
    obtain ⟨rest, hrest⟩ := attached_prefix cut t tensor
    rw [hrest]
    exact List.mem_append_left _ (h.mem_attached ht hb)
  unfold World.remove_shard
  rw [deref_eq ht]
  change (ensure _ _ >>= _) = _
  rw [ensure_of hmem]
  rfl

-- A buffer leaves its tensor.
theorem Owned.leave (h : Owned locals cut w) (ht : w.tensors t = some tensor)
    (hb : w.ref b = some t) :
    Owned (Function.update locals t (locals t + 1)) cut (w.left b t tensor) where
  shards := fun {s tensor'} hs b' => by
    rw [left, set_ref_ref, set_tensor_ref]
    rcases set_tensor_cases hs with ⟨rfl, rfl⟩ | ⟨hne, hs⟩
    · have hone := (h.shards ht b).trans (if_pos hb)
      rw [attached_hide, count_hide hone, h.shards ht]
      split
      · rfl
      · rfl
    · rw [h.shards hs]
      by_cases hbb : b' = b
      · subst hbb
        have href : w.ref b' ≠ some s := by
          intro hst
          exact hne (Option.some.inj (hst.symm.trans hb))
        rw [if_pos rfl, if_neg href]
        rfl
      · rw [if_neg hbb]
  counted := fun {s tensor'} hs => by
    simp only [left, set_ref_ref, set_tensor_ref]
    rcases set_tensor_cases hs with ⟨rfl, rfl⟩ | ⟨hne, hs⟩
    · obtain ⟨owners, howners, hcount⟩ := h.counted ht
      have hmem : b ∈ owners := (howners b).mpr hb
      refine ⟨owners.erase b, fun b' => ?_, ?_⟩
      · rw [Finset.mem_erase, howners]
        split
        · rename_i hbb
          simp [hbb]
        · rename_i hbb
          simp [hbb]
      · have hcard := Finset.card_erase_add_one hmem
        rw [Function.update_self]
        dsimp only
        omega
    · obtain ⟨owners, howners, hcount⟩ := h.counted hs
      refine ⟨owners, fun b' => ?_, ?_⟩
      · rw [howners]
        split
        · rename_i hbb
          subst hbb
          simp [hb, Ne.symm hne]
        · exact Iff.rfl
      · rw [Function.update_of_ne hne]
        exact hcount
  used := fun hs => by
    rcases set_tensor_cases hs with ⟨-, rfl⟩ | ⟨-, hs⟩
    · change 0 < tensor.use_count
      exact h.used ht
    · exact h.used hs
  referenced := fun {b' s} hb' => by
    rw [left, set_ref_ref, set_tensor_ref] at hb'
    rw [left, set_ref_tensors, set_tensor_tensors]
    split at hb'
    · cases hb'
    · obtain ⟨tensor', hs⟩ := h.referenced hb'
      split
      · exact ⟨_, rfl⟩
      · exact ⟨tensor', hs⟩
  pooled := fun s => by
    rw [left, set_ref_pool, set_tensor_pool, h.pooled, set_ref_tensors, set_tensor_tensors]
    split
    · rename_i hst
      subst hst
      exact ⟨fun _ => ⟨_, rfl⟩, fun _ => ⟨tensor, ht⟩⟩
    · exact Iff.rfl
  shard := fun {b' r} hr => by
    rw [left, set_ref_buffers, set_tensor_buffers] at hr
    split at hr
    · cases hr
      rfl
    · exact h.shard hr
  fresh := fun {s} hs => by
    have hst : s ≠ t := by
      intro hst
      have := h.fresh hs
      rw [hst, ht] at this
      cases this
    rw [left, set_ref_tensors, set_tensor_tensors, if_neg hst]
    exact h.fresh hs

-- A buffer without a tensor refers to the one that is built, as its next shard.
theorem Owned.join (h : Owned locals cut w) (ht : w.tensors t = some tensor)
    (hb : w.ref b = none) {i : Nat} (hcut : cut t = some i)
    (hi : tensor.m_shards[i]? = some (some b)) (hlocal : 0 < locals t) :
    Owned (Function.update locals t (locals t - 1)) (Function.update cut t (some (i + 1)))
      (w.set_ref b ⟨some t, some b⟩) where
  shards := fun {s tensor'} hs b' => by
    rw [set_ref_tensors] at hs
    rw [set_ref_ref]
    by_cases hst : s = t
    · subst hst
      obtain rfl := Option.some.inj (ht.symm.trans hs)
      have hold := h.shards ht b'
      unfold attached at hold ⊢
      rw [hcut] at hold
      rw [Function.update_self]
      dsimp only at hold ⊢
      rw [List.take_add_one, List.count_append, hold, hi]
      by_cases hbb : b' = b
      · subst hbb
        simp [hb]
      · rw [if_neg hbb]
        simp [Ne.symm hbb]
    · have hold := h.shards hs b'
      have hattached : attached (Function.update cut t (some (i + 1))) s tensor' =
          attached cut s tensor' := by
        unfold attached
        rw [Function.update_of_ne hst]
      rw [hattached, hold]
      by_cases hbb : b' = b
      · subst hbb
        have href : some t ≠ some s := fun hst' => hst (Option.some.inj hst').symm
        rw [if_pos rfl, hb]
        exact (if_neg href).symm
      · rw [if_neg hbb]
  counted := fun {s tensor'} hs => by
    rw [set_ref_tensors] at hs
    simp only [set_ref_ref]
    obtain ⟨owners, howners, hcount⟩ := h.counted hs
    by_cases hst : s = t
    · subst hst
      have hmem : b ∉ owners := by
        rw [howners, hb]
        exact (Option.some_ne_none s).symm
      refine ⟨Insert.insert b owners, fun b' => ?_, ?_⟩
      · rw [Finset.mem_insert, howners]
        split
        · rename_i hbb
          simp [hbb]
        · rename_i hbb
          simp [hbb]
      · rw [Finset.card_insert_of_notMem hmem, Function.update_self]
        omega
    · refine ⟨owners, fun b' => ?_, ?_⟩
      · rw [howners]
        split
        · rename_i hbb
          subst hbb
          simp [hb, Ne.symm hst]
        · exact Iff.rfl
      · rw [Function.update_of_ne hst]
        exact hcount
  used := fun hs => h.used hs
  referenced := fun {b' s} hb' => by
    rw [set_ref_ref] at hb'
    split at hb'
    · cases hb'
      exact ⟨tensor, ht⟩
    · exact h.referenced hb'
  pooled := h.pooled
  shard := fun {b' r} hr => by
    rw [set_ref_buffers] at hr
    split at hr
    · rename_i hbb
      cases hr
      rw [hbb]
      rfl
    · exact h.shard hr
  fresh := h.fresh

-- What is left of the older tensors when some buffers get new ones.
def without (moved : List BufferId) (shard : Option BufferId) : Option BufferId :=
  shard.bind fun b => if b ∈ moved then none else some b

structure Frame (n : TensorPtr) (moved : List BufferId) (w w' : World RT) : Prop where
  ref : ∀ b, b ∉ moved → w'.ref b = w.ref b
  live : ∀ b, (w'.buffers b).isSome = (w.buffers b).isSome
  kept : ∀ {t tensor'}, t < n → w'.tensors t = some tensor' → ∃ tensor,
    w.tensors t = some tensor ∧ tensor'.m_runtime_tensor = tensor.m_runtime_tensor ∧
      tensor'.m_shards = tensor.m_shards.map (without moved)

theorem without_nil (shard : Option BufferId) : without [] shard = shard := by
  cases shard <;> rfl

theorem without_append (moved moved' : List BufferId) (shard : Option BufferId) :
    without moved' (without moved shard) = without (moved ++ moved') shard := by
  cases shard with
  | none => rfl
  | some b =>
      unfold without
      by_cases h : b ∈ moved <;> simp [h]

theorem Frame.refl (n : TensorPtr) (w : World RT) : Frame n [] w w where
  ref := fun _ _ => rfl
  live := fun _ => rfl
  kept := fun {t tensor'} _ ht => by
    refine ⟨tensor', ht, rfl, ?_⟩
    rw [List.map_congr_left fun x _ => without_nil x, List.map_id']

theorem Frame.trans {n : TensorPtr} {moved moved' : List BufferId} {w w' w'' : World RT}
    (h : Frame n moved w w') (h' : Frame n moved' w' w'') : Frame n (moved ++ moved') w w'' where
  ref := fun b hb => by
    rw [List.mem_append, not_or] at hb
    exact (h'.ref b hb.2).trans (h.ref b hb.1)
  live := fun b => (h'.live b).trans (h.live b)
  kept := fun ht hs => by
    obtain ⟨tensor', hs', hrt', hshards'⟩ := h'.kept ht hs
    obtain ⟨tensor, hs, hrt, hshards⟩ := h.kept ht hs'
    refine ⟨tensor, hs, hrt'.trans hrt, ?_⟩
    rw [hshards', hshards, List.map_map]
    exact List.map_congr_left fun x _ => without_append moved moved' x

theorem hide_eq_map {l : List (Option BufferId)} (h : l.count (some b) ≤ 1) :
    hide b l = l.map (without [b]) := by
  unfold hide
  induction l with
  | nil => rfl
  | cons x l ih =>
      by_cases hx : x = some b
      · subst hx
        rw [List.count_cons_self] at h
        have hmem : some b ∉ l := List.count_eq_zero.mp (by omega)
        rw [List.replace_cons_self, List.map_cons]
        have hmap : l.map (without [b]) = l := by
          rw [List.map_congr_left, List.map_id']
          intro y hy
          cases y with
          | none => rfl
          | some c =>
              have hcb : c ≠ b := fun hcb => hmem (hcb ▸ hy)
              simp [without, hcb]
        rw [hmap]
        simp [without]
      · rw [List.count_cons_of_ne hx] at h
        have hbeq : (some b == x) = false := beq_eq_false_iff_ne.mpr (Ne.symm hx)
        rw [List.replace_cons, hbeq, List.map_cons, ← ih h]
        cases x with
        | none => rfl
        | some c =>
            have hcb : c ≠ b := fun hcb => hx (congrArg some hcb)
            simp [without, hcb]

theorem dropped_cases {t s : TensorPtr} {tensor tensor' : PjrtTensor RT}
    (hs : (w.dropped t tensor).tensors s = some tensor') :
    (s = t ∧ tensor.use_count ≠ 1 ∧
      tensor' = { tensor with use_count := tensor.use_count - 1 }) ∨
      (s ≠ t ∧ w.tensors s = some tensor') := by
  unfold dropped at hs
  split at hs
  · dsimp only at hs
    rw [Function.update_apply] at hs
    split at hs
    · cases hs
    · exact Or.inr ⟨‹_›, hs⟩
  · rcases set_tensor_cases hs with ⟨rfl, rfl⟩ | h
    · exact Or.inl ⟨rfl, ‹_›, rfl⟩
    · exact Or.inr h

@[simp] theorem dropped_buffers (w : World RT) (t : TensorPtr) (tensor : PjrtTensor RT) :
    (w.dropped t tensor).buffers = w.buffers := by
  unfold dropped
  split <;> rfl

@[simp] theorem dropped_ref (w : World RT) (t : TensorPtr) (tensor : PjrtTensor RT) :
    (w.dropped t tensor).ref = w.ref := by
  unfold ref
  rw [dropped_buffers]

@[simp] theorem dropped_next_uid (w : World RT) (t : TensorPtr) (tensor : PjrtTensor RT) :
    (w.dropped t tensor).next_uid = w.next_uid := by
  unfold dropped
  split <;> rfl

end TTXla.PJRT.World
