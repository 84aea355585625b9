import TTXla.PJRT.Execution
import TTXla.PJRT.Tensor.Shards

-- Which runtime tensors the tensors hold, before and after the functions that change them.
namespace TTXla.PJRT.World

open Excepts

variable {RT : Type} {Q : RT → Prop} {w w' w'' : World RT} {t : TensorPtr} {b : BufferId}
  {tensor : PjrtTensor RT}

-- Every tensor that is not destroyed is in the pool.
def Pooled (w : World RT) : Prop := ∀ t tensor, w.tensors t = some tensor → t ∈ w.m_tensors

def All (Q : RT → Prop) (w : World RT) : Prop :=
  ∀ t tensor, w.tensors t = some tensor → Q tensor.m_runtime_tensor

-- Runtime tensors stay with their tensors, but for some that satisfy `Q`.
structure Evolves (Q : RT → Prop) (w w' : World RT) : Prop where
  runtime_tensor : ∀ {s tensor'}, w'.tensors s = some tensor' → Q tensor'.m_runtime_tensor ∨
    ∃ tensor, w.tensors s = some tensor ∧ tensor'.m_runtime_tensor = tensor.m_runtime_tensor
  pooled : w.Pooled → w'.Pooled

namespace Evolves

theorem refl (w : World RT) : Evolves Q w w where
  runtime_tensor h := .inr ⟨_, h, rfl⟩
  pooled h := h

theorem trans (h : Evolves Q w w') (h' : Evolves Q w' w'') : Evolves Q w w'' where
  runtime_tensor := by
    intro s tensor'' ht
    obtain hq | ⟨tensor', ht', heq⟩ := h'.runtime_tensor ht
    · exact .inl hq
    · obtain hq | ⟨tensor, ht'', heq'⟩ := h.runtime_tensor ht'
      · exact .inl (by rw [heq]; exact hq)
      · exact .inr ⟨tensor, ht'', heq.trans heq'⟩
  pooled hp := h'.pooled (h.pooled hp)

theorem all (h : Evolves Q w w') (hall : w.All Q) : w'.All Q := by
  intro s tensor' ht
  obtain hq | ⟨tensor, ht', heq⟩ := h.runtime_tensor ht
  · exact hq
  · rw [heq]
    exact hall s tensor ht'

-- What one tensor holds.
theorem holds (h : Evolves Q w w')
    (ht : ∀ tensor, w.tensors t = some tensor → Q tensor.m_runtime_tensor) :
    ∀ tensor, w'.tensors t = some tensor → Q tensor.m_runtime_tensor := by
  intro tensor' ht'
  obtain hq | ⟨tensor, hold, heq⟩ := h.runtime_tensor ht'
  · exact hq
  · rw [heq]
    exact ht tensor hold

theorem set_tensor (ht : w.tensors t = some tensor) {new_tensor : PjrtTensor RT}
    (hrt : Q new_tensor.m_runtime_tensor ∨
      new_tensor.m_runtime_tensor = tensor.m_runtime_tensor) :
    Evolves Q w (w.set_tensor t new_tensor) where
  runtime_tensor := by
    intro s tensor' hs
    obtain ⟨rfl, rfl⟩ | ⟨-, hold⟩ := set_tensor_cases hs
    · exact hrt.imp_right fun heq => ⟨tensor, ht, heq⟩
    · exact .inr ⟨tensor', hold, rfl⟩
  pooled := by
    intro hp s tensor' hs
    obtain ⟨rfl, -⟩ | ⟨-, hold⟩ := set_tensor_cases hs
    · exact hp s tensor ht
    · exact hp s tensor' hold

theorem foldlM {α : Type} {f : World RT → α → Except Fault (World RT)} {l : List α}
    (hf : ∀ w a w', f w a = .ok w' → Evolves Q w w') (h : l.foldlM f w = .ok w') :
    Evolves Q w w' :=
  foldlM_invariant (P := fun w' => Evolves Q w w')
    (fun w₁ a _ w₂ h₁ h₂ => h₁.trans (hf w₁ a w₂ h₂)) (refl w) h

end Evolves

theorem share_evolves (h : w.share t = .ok w') : Evolves Q w w' := by
  obtain ⟨tensor, hderef, hw⟩ := bind_eq_ok.mp h
  cases hw
  exact .set_tensor (get_eq_ok.mp hderef) (.inr rfl)

theorem release_evolves (h : w.release t = .ok w') : Evolves Q w w' := by
  obtain ⟨tensor, hderef, hw⟩ := bind_eq_ok.mp h
  have ht := get_eq_ok.mp hderef
  split at hw
  · obtain ⟨w₁, herase, hw₁⟩ := bind_eq_ok.mp hw
    obtain ⟨-, -, hw₂⟩ := bind_eq_ok.mp herase
    cases hw₂
    cases hw₁
    have hcases : ∀ {s tensor'}, Function.update w.tensors t none s = some tensor' →
        s ≠ t ∧ w.tensors s = some tensor' := by
      intro s tensor' hs
      rw [Function.update_apply] at hs
      split at hs
      · cases hs
      · exact ⟨‹_›, hs⟩
    constructor
    · intro s tensor' hs
      exact .inr ⟨tensor', (hcases hs).2, rfl⟩
    · intro hp s tensor' hs
      exact Finset.mem_erase.mpr ⟨(hcases hs).1, hp s tensor' (hcases hs).2⟩
  · cases hw
    exact .set_tensor ht (.inr rfl)

theorem remove_shard_evolves (h : w.remove_shard t b = .ok w') : Evolves Q w w' := by
  obtain ⟨tensor, hderef, hw⟩ := bind_eq_ok.mp h
  obtain ⟨-, -, hw⟩ := bind_eq_ok.mp hw
  cases hw
  exact .set_tensor (get_eq_ok.mp hderef) (.inr rfl)

theorem set_ref_evolves (w : World RT) (b : BufferId) (ref : PjrtTensorRef) :
    Evolves Q w (w.set_ref b ref) where
  runtime_tensor h := .inr ⟨_, h, rfl⟩
  pooled h := h

theorem reset_evolves {new_tensor : Option TensorPtr} {shard : Option BufferId}
    (h : w.reset b new_tensor shard = .ok w') : Evolves Q w w' := by
  obtain ⟨w₁, hremoved, hreleased⟩ := reset_cases h
  have h₁ : Evolves Q w w₁ := by
    obtain rfl | ⟨t, s, hremoved⟩ := hremoved
    · exact .refl w₁
    · exact remove_shard_evolves hremoved
  refine h₁.trans ((set_ref_evolves w₁ b ⟨new_tensor, shard⟩).trans ?_)
  obtain rfl | ⟨t, hreleased⟩ := hreleased
  · exact .refl _
  · exact release_evolves hreleased

theorem setPjrtTensor_evolves (h : w.setPjrtTensor b t = .ok w') : Evolves Q w w' := by
  obtain ⟨w₁, hshare, hreset⟩ := bind_eq_ok.mp h
  exact (share_evolves hshare).trans (reset_evolves hreset)

theorem destroy_buffer_evolves (h : w.destroy_buffer b = .ok w') : Evolves Q w w' := by
  obtain ⟨w₁, hreset, hw⟩ := bind_eq_ok.mp h
  cases hw
  have h₁ : Evolves Q w w₁ := reset_evolves hreset
  exact ⟨h₁.runtime_tensor, h₁.pooled⟩

theorem set_shards_evolves {is : List Nat} (h : w.set_shards t is = .ok w') :
    Evolves Q w w' := by
  refine .foldlM (fun w i w' hi => ?_) h
  obtain ⟨tensor, -, hi⟩ := bind_eq_ok.mp hi
  obtain ⟨shard, -, hi⟩ := bind_eq_ok.mp hi
  exact setPjrtTensor_evolves hi

-- The functions of the runtime give tensors that satisfy `Q`.
structure Closed (runtime : Runtime RT) (Q : RT → Prop) : Prop where
  setTensorRetain : ∀ rt, Q rt → Q (runtime.setTensorRetain rt true)
  toHost : ∀ rt, ∀ x ∈ runtime.toHost rt, Q x
  createMultiDeviceHostTensor : ∀ tensors strategy mesh_shape,
    Q (runtime.createMultiDeviceHostTensor tensors strategy mesh_shape)

section Runtime

variable {runtime : Runtime RT}

theorem from_runtime_tensor_evolves {shards : List BufferId} {rt : RT}
    (hq : Q (runtime.setTensorRetain rt true))
    (h : w.from_runtime_tensor runtime shards rt = .ok (w', t)) : Evolves Q w w' := by
  unfold from_runtime_tensor at h
  obtain ⟨w₁, hinsert, h⟩ := bind_eq_ok.mp h
  obtain ⟨w₂, hset, h⟩ := bind_eq_ok.mp h
  obtain ⟨w₃, hrelease, h⟩ := bind_eq_ok.mp h
  cases h
  obtain ⟨-, -, hw₁⟩ := bind_eq_ok.mp hinsert
  cases hw₁
  refine Evolves.trans ?_ ((set_shards_evolves hset).trans (release_evolves hrelease))
  have hcases : ∀ {s tensor'}, Function.update w.tensors w.next_uid
      (some ⟨shards.map some, runtime.setTensorRetain rt true, 1⟩) s = some tensor' →
        (s = w.next_uid ∧ tensor'.m_runtime_tensor = runtime.setTensorRetain rt true) ∨
          w.tensors s = some tensor' := by
    intro s tensor' hs
    rw [Function.update_apply] at hs
    split at hs
    · cases hs
      exact .inl ⟨‹_›, rfl⟩
    · exact .inr hs
  constructor
  · intro s tensor' hs
    obtain ⟨-, hrt⟩ | hold := hcases hs
    · exact .inl (by rw [hrt]; exact hq)
    · exact .inr ⟨tensor', hold, rfl⟩
  · intro hp s tensor' hs
    obtain ⟨rfl, -⟩ | hold := hcases hs
    · exact Finset.mem_insert_self _ _
    · exact Finset.mem_insert_of_mem (hp s tensor' hold)

theorem move_shard_evolves (hclosed : Closed runtime Q)
    {tensors : List RT} (htensors : ∀ rt ∈ tensors, Q rt)
    (ht : ∀ tensor, w.tensors t = some tensor → Q tensor.m_runtime_tensor) {i : Nat}
    (h : w.move_shard runtime t tensors i = .ok w') : Evolves Q w w' := by
  unfold move_shard at h
  obtain ⟨this, hthis, h⟩ := bind_eq_ok.mp h
  obtain ⟨shard, -, h⟩ := bind_eq_ok.mp h
  split at h
  · cases h
    exact .refl w
  · dsimp only at h
    split at h
    · obtain ⟨rt, hrt, h⟩ := bind_eq_ok.mp h
      cases hrt
      obtain ⟨⟨w₁, t₁⟩, hmade, h⟩ := bind_eq_ok.mp h
      cases h
      have hq := ht this (get_eq_ok.mp hthis)
      exact from_runtime_tensor_evolves (hclosed.setTensorRetain _ hq) hmade
    · obtain ⟨rt, hrt, h⟩ := bind_eq_ok.mp h
      obtain ⟨⟨w₁, t₁⟩, hmade, h⟩ := bind_eq_ok.mp h
      cases h
      have hq := htensors rt (List.mem_of_getElem? (get_eq_ok.mp hrt))
      exact from_runtime_tensor_evolves (hclosed.setTensorRetain rt hq) hmade

theorem move_to_host_evolves (hclosed : Closed runtime Q)
    (h : w.move_to_host runtime t = .ok w') :
    Evolves Q w w' ∧ ∀ tensor, w'.tensors t = some tensor → Q tensor.m_runtime_tensor := by
  unfold move_to_host at h
  obtain ⟨this, hthis, h⟩ := bind_eq_ok.mp h
  obtain ⟨-, -, h⟩ := bind_eq_ok.mp h
  obtain ⟨first, hfirst, h⟩ := bind_eq_ok.mp h
  obtain ⟨w₁, hshards, h⟩ := bind_eq_ok.mp h
  obtain ⟨this₁, hthis₁, h⟩ := bind_eq_ok.mp h
  cases h
  have hq : Q first := hclosed.toHost _ _ (List.mem_of_getElem? (get_eq_ok.mp hfirst))
  have hset : Evolves Q w (w.set_tensor t { this with m_runtime_tensor := first }) :=
    .set_tensor (get_eq_ok.mp hthis) (.inl hq)
  have hmoved := foldlM_invariant (P := fun w' => Evolves Q w w' ∧
      ∀ tensor, w'.tensors t = some tensor → Q tensor.m_runtime_tensor)
    (fun w₁ i _ w₂ h₁ hi => by
      have := move_shard_evolves hclosed (hclosed.toHost _) h₁.2 hi
      exact ⟨h₁.1.trans this, this.holds h₁.2⟩)
    ⟨hset, fun tensor htensor => by
      rw [set_tensor_self] at htensor
      cases htensor
      exact hq⟩ hshards
  have hlast : Evolves Q w₁
      (w₁.set_tensor t { this₁ with m_shards := [this₁.m_shards.headD none] }) :=
    .set_tensor (get_eq_ok.mp hthis₁) (.inr rfl)
  exact ⟨hmoved.1.trans hlast, hlast.holds hmoved.2⟩

-- When all the tensors of the pool are moved, all tensors are on the host.
theorem move_tensors_to_host_all (hclosed : Closed runtime Q) {tensors : List TensorPtr}
    (h : w.move_tensors_to_host runtime tensors = .ok w') :
    Evolves Q w w' ∧
      ∀ t ∈ tensors, ∀ tensor, w'.tensors t = some tensor → Q tensor.m_runtime_tensor := by
  induction tensors generalizing w with
  | nil =>
      cases h
      exact ⟨.refl _, fun t ht => by cases ht⟩
  | cons t tensors ih =>
      unfold move_tensors_to_host at h
      rw [List.foldlM_cons] at h
      obtain ⟨w₁, hmoved, h⟩ := bind_eq_ok.mp h
      obtain ⟨hevolves, ht⟩ := move_to_host_evolves hclosed hmoved
      obtain ⟨hrest, hothers⟩ := ih h
      refine ⟨hevolves.trans hrest, fun s hs => ?_⟩
      cases hs with
      | head => exact hrest.holds ht
      | tail _ hs => exact hothers s hs

theorem move_tensors_to_host_host (hclosed : Closed runtime Q) {tensors : List TensorPtr}
    (hp : w.Pooled) (hpool : ∀ t ∈ w.m_tensors, t ∈ tensors)
    (h : w.move_tensors_to_host runtime tensors = .ok w') : w'.Pooled ∧ w'.All Q := by
  obtain ⟨hevolves, htensors⟩ := move_tensors_to_host_all hclosed h
  refine ⟨hevolves.pooled hp, fun s tensor' hs => ?_⟩
  obtain hq | ⟨tensor, hold, -⟩ := hevolves.runtime_tensor hs
  · exact hq
  · exact htensors s (hpool s (hp s tensor hold)) tensor' hs

end Runtime

theorem create_buffer_evolves (w : World RT) (b : BufferId) : Evolves Q w (w.create_buffer b) where
  runtime_tensor h := .inr ⟨_, h, rfl⟩
  pooled h := h

theorem create_buffers_evolves (w : World RT) (bs : List BufferId) :
    Evolves Q w (bs.foldl create_buffer w) := by
  induction bs generalizing w with
  | nil => exact .refl w
  | cons b bs ih => exact (create_buffer_evolves w b).trans (ih (w.create_buffer b))

section Executions

variable {L D : Type} {runtime : DeviceRuntime RT L D}

theorem runtimeTensor_all (hall : w.All Q) {rt : RT} (h : w.runtimeTensor b = .ok rt) : Q rt := by
  obtain ⟨t, -, h⟩ := bind_eq_ok.mp h
  obtain ⟨tensor, ht, h⟩ := bind_eq_ok.mp h
  cases h
  exact hall t tensor (get_eq_ok.mp ht)

theorem rt_tensor_from_strategy_all (hclosed : Closed runtime.toRuntime Q) (hall : w.All Q)
    {shards : List BufferId} {strategy : Strategy} {mesh_shape : List Nat} {rt : RT}
    (h : w.rt_tensor_from_strategy runtime.toRuntime shards strategy mesh_shape = .ok rt) :
    Q rt := by
  obtain ⟨name, -, h⟩ := bind_eq_ok.mp h
  split at h
  · obtain ⟨front, -, h⟩ := bind_eq_ok.mp h
    exact runtimeTensor_all hall h
  · obtain ⟨tensors, -, h⟩ := bind_eq_ok.mp h
    cases h
    exact hclosed.createMultiDeviceHostTensor tensors strategy mesh_shape

theorem from_pjrt_buffers_evolves (hclosed : Closed runtime.toRuntime Q) (hall : w.All Q)
    {shards : List BufferId} {strategy : Strategy} {mesh_shape : List Nat}
    (h : w.from_pjrt_buffers runtime.toRuntime shards mesh_shape strategy = .ok (w', t)) :
    Evolves Q w w' := by
  obtain ⟨same, -, h⟩ := bind_eq_ok.mp h
  split at h
  · obtain ⟨t, -, h⟩ := bind_eq_ok.mp h
    cases h
    exact .refl w
  · obtain ⟨rt, hrt, h⟩ := bind_eq_ok.mp h
    have hq := rt_tensor_from_strategy_all hclosed hall hrt
    exact from_runtime_tensor_evolves (hclosed.setTensorRetain rt hq) h

theorem ensure_layout_evolves (hlayout : ∀ rt layout retain, Q (runtime.toLayout rt layout retain))
    {layout : L}
    (h : w.ensure_layout runtime t layout = .ok w') : Evolves Q w w' := by
  obtain ⟨tensor, ht, h⟩ := bind_eq_ok.mp h
  split at h
  · cases h
    exact .refl w
  · cases h
    exact .set_tensor (get_eq_ok.mp ht) (.inl (hlayout _ _ _))

theorem prepareInputTensor_evolves (hclosed : Closed runtime.toRuntime Q)
    (hlayout : ∀ rt layout retain, Q (runtime.toLayout rt layout retain)) (hall : w.All Q)
    {arg : Argument L} {num_devices : Nat} {mesh_shape : List Nat} {prepared : Option RT}
    (h : w.prepareInputTensor runtime arg num_devices mesh_shape = .ok (w', prepared)) :
    Evolves Q w w' := by
  obtain ⟨strategy, -, h⟩ := bind_eq_ok.mp h
  cases strategy with
  | none =>
      cases h
      exact .refl w
  | some strategy =>
      obtain ⟨⟨w₁, t⟩, hmade, h⟩ := bind_eq_ok.mp h
      obtain ⟨w₂, hlaid, h⟩ := bind_eq_ok.mp h
      obtain ⟨tensor, -, h⟩ := bind_eq_ok.mp h
      cases h
      exact (from_pjrt_buffers_evolves hclosed hall hmade).trans
        (ensure_layout_evolves hlayout hlaid)

theorem getInputRuntimeTensors_evolves (hclosed : Closed runtime.toRuntime Q)
    (hlayout : ∀ rt layout retain, Q (runtime.toLayout rt layout retain)) {num_devices : Nat}
    {mesh_shape : List Nat} {args : List (Argument L)} (hall : w.All Q) {status : Status}
    {ins outs : List RT}
    (h : getInputRuntimeTensors runtime num_devices mesh_shape args w ins =
      .ok (w', status, outs)) : Evolves Q w w' := by
  induction args generalizing w ins with
  | nil =>
      cases h
      exact .refl _
  | cons arg args ih =>
      obtain ⟨⟨w₁, prepared⟩, hprepared, h⟩ := bind_eq_ok.mp h
      have h₁ := prepareInputTensor_evolves hclosed hlayout hall hprepared
      cases prepared with
      | none =>
          cases h
          exact h₁
      | some prepared =>
          dsimp only at h
          split at h
          · cases h
            exact h₁
          · split at h
            · cases h
              exact h₁
            · exact h₁.trans (ih (h₁.all hall) h)

theorem fillPJRTOutputLists_evolves (hclosed : Closed runtime.toRuntime Q)
    {outputs : List (RT × List BufferId)} (hq : ∀ x ∈ outputs, Q x.1)
    (h : w.fillPJRTOutputLists runtime outputs = .ok w') : Evolves Q w w' := by
  refine foldlM_invariant (P := fun w' => Evolves Q w w') (fun w₁ x hx w₂ h₁ h₂ => ?_)
    (.refl w) h
  obtain ⟨⟨w₃, t⟩, hmade, h₂⟩ := bind_eq_ok.mp h₂
  cases h₂
  exact h₁.trans ((create_buffers_evolves w₁ x.2).trans
    (from_runtime_tensor_evolves (hclosed.setTensorRetain _ (hq x hx)) hmade))

theorem copyToHost_evolves (hclosed : Closed runtime.toRuntime Q) {data : D}
    (h : w.copyToHost runtime b = .ok (w', data)) : Evolves Q w w' := by
  obtain ⟨t, -, h⟩ := bind_eq_ok.mp h
  obtain ⟨w₁, hmoved, h⟩ := bind_eq_ok.mp h
  obtain ⟨rt, -, h⟩ := bind_eq_ok.mp h
  cases h
  exact (move_to_host_evolves hclosed hmoved).1

theorem copyFromHost_evolves (hclosed : Closed runtime.toRuntime Q) {data : D}
    (howned : Q (runtime.createOwnedHostTensor data))
    (h : w.copyFromHost runtime b data = .ok w') : Evolves Q w w' := by
  obtain ⟨⟨w₁, t⟩, hmade, h⟩ := bind_eq_ok.mp h
  cases h
  exact from_runtime_tensor_evolves
    (hclosed.setTensorRetain _ howned) hmade

theorem copyFromBuffer_evolves (hclosed : Closed runtime.toRuntime Q)
    (howned : ∀ data, Q (runtime.createOwnedHostTensor data)) {src_buffer : BufferId}
    (h : w.copyFromBuffer runtime b src_buffer = .ok w') : Evolves Q w w' := by
  obtain ⟨⟨w₁, data⟩, hcopied, h⟩ := bind_eq_ok.mp h
  exact (copyToHost_evolves hclosed hcopied).trans (copyFromHost_evolves hclosed (howned data) h)

end Executions

end TTXla.PJRT.World
