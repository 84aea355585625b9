import TTXla.PJRT.HostBuffers
import TTXla.PJRT.Tensor.Shards

-- The tensors of the pool that alias host memory, when a buffer is destroyed.
namespace TTXla.PJRT.World

open Excepts

variable {RT : Type} {aliases : RT → Finset HostBuffer} {host_buffer : HostBuffer}
  {w w' w'' : World RT} {t s : TensorPtr} {b : BufferId}

def aliasing (aliases : RT → Finset HostBuffer) (host_buffer : HostBuffer) (w : World RT) :
    Finset TensorPtr :=
  w.m_tensors.filter fun t =>
    (w.tensors t).any fun tensor => decide (host_buffer ∈ aliases tensor.m_runtime_tensor)

theorem mem_aliasing : t ∈ w.aliasing aliases host_buffer ↔ t ∈ w.m_tensors ∧
    ∃ tensor, w.tensors t = some tensor ∧ host_buffer ∈ aliases tensor.m_runtime_tensor := by
  simp [aliasing, Option.any_eq_true]

-- The tensor is destroyed with the buffer.
def LastOwner (w : World RT) (b : BufferId) (t : TensorPtr) : Prop :=
  w.ref b = some t ∧ ∀ tensor ∈ w.tensors t, tensor.use_count = 1

instance : Decidable (w.LastOwner b t) := inferInstanceAs (Decidable (_ ∧ _))

-- The tensors of the pool keep their runtime tensors and their owners.
structure KeepsTensors (w w' : World RT) : Prop where
  pool : w'.m_tensors = w.m_tensors
  tensors : ∀ t, (w'.tensors t).map (fun tensor => (tensor.m_runtime_tensor, tensor.use_count)) =
    (w.tensors t).map fun tensor => (tensor.m_runtime_tensor, tensor.use_count)

namespace KeepsTensors

theorem refl (w : World RT) : KeepsTensors w w := ⟨rfl, fun _ => rfl⟩

theorem trans (h : KeepsTensors w w') (h' : KeepsTensors w' w'') : KeepsTensors w w'' :=
  ⟨h'.pool.trans h.pool, fun t => (h'.tensors t).trans (h.tensors t)⟩

theorem symm (h : KeepsTensors w w') : KeepsTensors w' w :=
  ⟨h.pool.symm, fun t => (h.tensors t).symm⟩

theorem some (h : KeepsTensors w w') {tensor : PjrtTensor RT} (ht : w.tensors t = some tensor) :
    ∃ tensor', w'.tensors t = some tensor' ∧
      tensor'.m_runtime_tensor = tensor.m_runtime_tensor ∧
        tensor'.use_count = tensor.use_count := by
  have hmap := h.tensors t
  rw [ht, Option.map_some] at hmap
  obtain ⟨tensor', ht', heq⟩ := Option.map_eq_some_iff.mp hmap
  exact ⟨tensor', ht', congrArg Prod.fst heq, congrArg Prod.snd heq⟩

theorem aliasing (h : KeepsTensors w w') :
    w'.aliasing aliases host_buffer = w.aliasing aliases host_buffer := by
  have hle : ∀ {w w' : World RT}, KeepsTensors w w' →
      ∀ t ∈ w.aliasing aliases host_buffer, t ∈ w'.aliasing aliases host_buffer := by
    intro w w' h t ht
    obtain ⟨hpool, tensor, htensor, hmem⟩ := mem_aliasing.mp ht
    obtain ⟨tensor', htensor', hrt, -⟩ := h.some htensor
    refine mem_aliasing.mpr ⟨?_, tensor', htensor', ?_⟩
    · rw [h.pool]
      exact hpool
    · rw [hrt]
      exact hmem
  exact Finset.Subset.antisymm (hle h.symm) (hle h)

theorem set_tensor {tensor new_tensor : PjrtTensor RT} (ht : w.tensors t = Option.some tensor)
    (hrt : new_tensor.m_runtime_tensor = tensor.m_runtime_tensor)
    (hcount : new_tensor.use_count = tensor.use_count) :
    KeepsTensors w (w.set_tensor t new_tensor) := by
  refine ⟨rfl, fun s => ?_⟩
  by_cases hs : s = t
  · subst hs
    rw [set_tensor_self, ht, Option.map_some, Option.map_some, hrt, hcount]
  · rw [set_tensor_tensors, if_neg hs]

end KeepsTensors

theorem remove_shard_keeps {shard : BufferId} (h : w.remove_shard t shard = .ok w') :
    KeepsTensors w w' := by
  obtain ⟨tensor, hderef, h⟩ := bind_eq_ok.mp h
  obtain ⟨-, -, h⟩ := bind_eq_ok.mp h
  cases h
  exact .set_tensor (get_eq_ok.mp hderef) rfl rfl

theorem release_aliasing (h : w.release t = .ok w') : s ∈ w'.aliasing aliases host_buffer ↔
    s ∈ w.aliasing aliases host_buffer ∧
      ¬(s = t ∧ ∀ tensor ∈ w.tensors t, tensor.use_count = 1) := by
  obtain ⟨tensor, hderef, h⟩ := bind_eq_ok.mp h
  have ht := get_eq_ok.mp hderef
  split at h
  case isTrue hone =>
    obtain ⟨w₁, herase, h⟩ := bind_eq_ok.mp h
    obtain ⟨-, -, herase⟩ := bind_eq_ok.mp herase
    cases herase
    cases h
    rw [mem_aliasing, mem_aliasing]
    by_cases hs : s = t
    · subst hs
      refine ⟨fun hmem => absurd rfl (Finset.mem_erase.mp hmem.1).1, fun ⟨_, hno⟩ => ?_⟩
      refine absurd ⟨rfl, fun tensor' ht' => ?_⟩ hno
      cases ht.symm.trans ht'
      exact hone
    · have hsame : Function.update w.tensors t none s = w.tensors s :=
        Function.update_of_ne hs none w.tensors
      dsimp only
      rw [hsame, Finset.mem_erase]
      exact ⟨fun ⟨hpool, hmem⟩ => ⟨⟨hpool.2, hmem⟩, fun hno => hs hno.1⟩,
        fun ⟨⟨hpool, hmem⟩, _⟩ => ⟨⟨hs, hpool⟩, hmem⟩⟩
  case isFalse hmany =>
    cases h
    have hkept : ∀ s, s ∈ (w.set_tensor t
        { tensor with use_count := tensor.use_count - 1 }).aliasing aliases host_buffer ↔
          s ∈ w.aliasing aliases host_buffer := by
      intro s
      rw [mem_aliasing, mem_aliasing]
      by_cases hs : s = t
      · subst hs
        rw [set_tensor_self, ht]
        refine and_congr Iff.rfl ⟨fun ⟨x, hx, hmem⟩ => ⟨tensor, rfl, ?_⟩,
          fun ⟨x, hx, hmem⟩ => ⟨_, rfl, ?_⟩⟩
        · cases hx
          exact hmem
        · cases hx
          exact hmem
      · rw [set_tensor_tensors, if_neg hs]
        exact Iff.rfl
    rw [hkept]
    exact ⟨fun hmem => ⟨hmem, fun hno => hmany (hno.2 tensor ht)⟩, fun hmem => hmem.1⟩

theorem destroy_buffer_aliasing (h : w.destroy_buffer b = .ok w') :
    s ∈ w'.aliasing aliases host_buffer ↔
      s ∈ w.aliasing aliases host_buffer ∧ ¬w.LastOwner b s := by
  obtain ⟨w₂, hreset, h⟩ := bind_eq_ok.mp h
  cases h
  change s ∈ w₂.aliasing aliases host_buffer ↔ _
  unfold reset at hreset
  obtain ⟨-, -, hreset⟩ := bind_eq_ok.mp hreset
  obtain ⟨ref, href, hreset⟩ := bind_eq_ok.mp hreset
  have href := ref_of_buffer (get_eq_ok.mp href)
  have hset : ∀ {w₁ : World RT}, KeepsTensors w w₁ →
      KeepsTensors w (w₁.set_ref b ⟨none, none⟩) := fun hkeeps => hkeeps.trans ⟨rfl, fun _ => rfl⟩
  unfold LastOwner
  rw [href]
  dsimp only at hreset
  cases hm : ref.m_tensor with
  | none =>
      rw [hm] at hreset
      split at hreset
      · obtain ⟨t, ht, -⟩ := bind_eq_ok.mp hreset
        cases ht
      · cases hreset
        have hnone : ¬((none : Option TensorPtr) = some s ∧
            ∀ tensor ∈ w.tensors s, tensor.use_count = 1) := fun h => by cases h.1
        rw [(hset (.refl w)).aliasing, and_iff_left hnone]
  | some t =>
      -- what is left after the shard was removed is released
      have hlast : ∀ {w₁ : World RT}, KeepsTensors w w₁ →
          (w₁.set_ref b ⟨none, none⟩).release t = .ok w₂ →
          (s ∈ w₂.aliasing aliases host_buffer ↔ s ∈ w.aliasing aliases host_buffer ∧
            ¬(some t = some s ∧ ∀ tensor ∈ w.tensors s, tensor.use_count = 1)) := by
        intro w₁ hkeeps hw₂
        have hcount : ∀ {w w' : World RT}, KeepsTensors w w' →
            (∀ tensor ∈ w.tensors t, tensor.use_count = 1) →
              ∀ tensor ∈ w'.tensors t, tensor.use_count = 1 := by
          intro w w' hkeeps hone tensor ht
          obtain ⟨tensor', ht', -, heq⟩ := hkeeps.symm.some ht
          rw [← heq]
          exact hone tensor' ht'
        rw [release_aliasing hw₂, (hset hkeeps).aliasing]
        refine and_congr_right fun _ => not_congr ?_
        constructor
        · intro hmem
          obtain ⟨heq, hone⟩ := hmem
          subst heq
          exact ⟨rfl, hcount (hset hkeeps).symm hone⟩
        · intro hmem
          obtain ⟨heq, hone⟩ := hmem
          cases heq
          exact ⟨rfl, hcount (hset hkeeps) hone⟩
      rw [hm] at hreset
      split at hreset
      · obtain ⟨t', ht', hreset⟩ := bind_eq_ok.mp hreset
        obtain ⟨w₁, hremoved, hreset⟩ := bind_eq_ok.mp hreset
        exact hlast (remove_shard_keeps hremoved) hreset
      · exact hlast (.refl w) hreset

end TTXla.PJRT.World
