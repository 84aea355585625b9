import TTXla.Lib.Run
import TTXla.PJRT.HostBuffers.Agreement
import TTXla.PJRT.HostBuffers.Aliases

-- Host memory that was given back: no tensor aliases it, and no call touches it.
namespace TTXla.PJRT.HostClient

open Excepts World Run

variable {RT L D DT B : Type} {runtime runtime' : HostRuntime RT L D DT B}
  {aliases : RT → Finset HostBuffer} {ready : Finset HostBuffer} {s s' : HostClient RT}
  {b : BufferId}

-- Which host memory the tensors of the runtime alias.
structure Aliasing (runtime : HostRuntime RT L D DT B) (aliases : RT → Finset HostBuffer) :
    Prop where
  setTensorRetain : ∀ rt retain, aliases (runtime.setTensorRetain rt retain) ⊆ aliases rt
  toHost : ∀ rt, ∀ x ∈ runtime.toHost rt, aliases x ⊆ aliases rt
  createMultiDeviceHostTensor : ∀ tensors strategy mesh_shape,
    ∀ h ∈ aliases (runtime.createMultiDeviceHostTensor tensors strategy mesh_shape),
      ∃ rt ∈ tensors, h ∈ aliases rt
  toLayout : ∀ d rt layout retain, aliases (runtime.toLayout d rt layout retain) ⊆ aliases rt
  createOwnedHostTensor : ∀ data, aliases (runtime.createOwnedHostTensor data) = ∅
  createBorrowedHostTensor : ∀ h data, aliases (runtime.createBorrowedHostTensor h data) = {h}
  submit : ∀ binary d ins, ∀ outs ∈ runtime.submit binary d ins, ∀ rt ∈ outs, ∀ h ∈ aliases rt,
    ∃ x ∈ ins, h ∈ aliases x

-- The tensor does not alias the memory that was given back.
def Apart (aliases : RT → Finset HostBuffer) (ready : Finset HostBuffer) (rt : RT) : Prop :=
  ∀ h ∈ aliases rt, h ∉ ready

-- The runtimes differ only in what they do with memory that was given back.
structure AgreesApart (aliases : RT → Finset HostBuffer) (ready : Finset HostBuffer)
    (runtime runtime' : HostRuntime RT L D DT B) : Prop where
  setTensorRetain : ∀ rt retain, Apart aliases ready rt →
    runtime.setTensorRetain rt retain = runtime'.setTensorRetain rt retain
  toHost : ∀ rt, Apart aliases ready rt → runtime.toHost rt = runtime'.toHost rt
  createMultiDeviceHostTensor : ∀ tensors strategy mesh_shape,
    (∀ rt ∈ tensors, Apart aliases ready rt) →
      runtime.createMultiDeviceHostTensor tensors strategy mesh_shape =
        runtime'.createMultiDeviceHostTensor tensors strategy mesh_shape
  hasLayout : ∀ rt layout, Apart aliases ready rt →
    runtime.hasLayout rt layout = runtime'.hasLayout rt layout
  toLayout : ∀ d rt layout retain, Apart aliases ready rt →
    runtime.toLayout d rt layout retain = runtime'.toLayout d rt layout retain
  getTensorRetain : ∀ rt, Apart aliases ready rt →
    runtime.getTensorRetain rt = runtime'.getTensorRetain rt
  isTensorAllocated : ∀ rt, Apart aliases ready rt →
    runtime.isTensorAllocated rt = runtime'.isTensorAllocated rt
  memcpy : ∀ rt, Apart aliases ready rt → runtime.memcpy rt = runtime'.memcpy rt
  createOwnedHostTensor : ∀ data,
    runtime.createOwnedHostTensor data = runtime'.createOwnedHostTensor data
  isSupportedDataType : ∀ data_type,
    runtime.isSupportedDataType data_type = runtime'.isSupportedDataType data_type
  createBorrowedHostTensor : ∀ h data, h ∉ ready →
    runtime.createBorrowedHostTensor h data = runtime'.createBorrowedHostTensor h data
  submit : ∀ binary d ins, (∀ rt ∈ ins, Apart aliases ready rt) →
    runtime.submit binary d ins = runtime'.submit binary d ins

theorem AgreesApart.refl (aliases : RT → Finset HostBuffer) (ready : Finset HostBuffer)
    (runtime : HostRuntime RT L D DT B) : AgreesApart aliases ready runtime runtime := by
  constructor <;> intros <;> rfl

-- The tensor aliases only memory that was lent, and was not given back.
def Lent (aliases : RT → Finset HostBuffer) (ready : Finset HostBuffer) (next : HostBuffer)
    (rt : RT) : Prop :=
  ∀ h ∈ aliases rt, h < next ∧ h ∉ ready

theorem Lent.apart {next : HostBuffer} {rt : RT} (hrt : Lent aliases ready next rt) :
    Apart aliases ready rt := fun h hmem => (hrt h hmem).2

theorem Lent.subset {next : HostBuffer} {rt x : RT} (hrt : Lent aliases ready next rt)
    (hle : aliases x ⊆ aliases rt) : Lent aliases ready next x := fun h hmem => hrt h (hle hmem)

theorem Lent.of_exists {next : HostBuffer} {tensors : List RT} {x : RT}
    (htensors : ∀ rt ∈ tensors, Lent aliases ready next rt)
    (hx : ∀ h ∈ aliases x, ∃ rt ∈ tensors, h ∈ aliases rt) : Lent aliases ready next x := by
  intro h hmem
  obtain ⟨rt, hrt, hmem⟩ := hx h hmem
  exact htensors rt hrt h hmem

theorem Aliasing.alike (hal : Aliasing runtime aliases)
    (hap : AgreesApart aliases ready runtime runtime') (next : HostBuffer) (d : DeviceHandle) :
    Alike (Lent aliases ready next) (runtime.on d) (runtime'.on d) where
  setTensorRetain rt hrt :=
    ⟨hap.setTensorRetain rt true hrt.apart, hrt.subset (hal.setTensorRetain rt true)⟩
  toHost rt hrt := ⟨hap.toHost rt hrt.apart, fun x hx => hrt.subset (hal.toHost rt x hx)⟩
  createMultiDeviceHostTensor tensors strategy mesh_shape htensors :=
    ⟨hap.createMultiDeviceHostTensor tensors strategy mesh_shape
      fun rt hrt => (htensors rt hrt).apart,
      .of_exists htensors (hal.createMultiDeviceHostTensor tensors strategy mesh_shape)⟩
  hasLayout rt layout hrt := hap.hasLayout rt layout hrt.apart
  toLayout rt layout retain hrt :=
    ⟨hap.toLayout d rt layout retain hrt.apart, hrt.subset (hal.toLayout d rt layout retain)⟩
  getTensorRetain rt hrt := hap.getTensorRetain rt hrt.apart
  isTensorAllocated rt hrt := hap.isTensorAllocated rt hrt.apart
  memcpy rt hrt := hap.memcpy rt hrt.apart
  createOwnedHostTensor data := by
    refine ⟨hap.createOwnedHostTensor data, fun h hmem => ?_⟩
    change h ∈ aliases (runtime.createOwnedHostTensor data) at hmem
    rw [hal.createOwnedHostTensor data] at hmem
    exact absurd hmem (Finset.notMem_empty h)

-- Once an event is ready, no tensor of the pool aliases its host memory.
def Returned (aliases : RT → Finset HostBuffer) (s : HostClient RT) : Prop :=
  ∀ h ∈ s.ready, s.client.world.aliasing aliases h = ∅

-- The memory that the deletion of a buffer gives back.
def pending (s : HostClient RT) (b : BufferId) : Option HostBuffer :=
  if (s.buffers b).m_data_deleted then none else (s.buffers b).m_done_with_host_buffer_event

-- When a buffer is deleted, the tensors do not alias its memory any more. When it is destroyed
-- instead, those that alias it have no other owner.
def Clean (aliases : RT → Finset HostBuffer) (s : HostClient RT) : HostCall L D DT B → Prop
  | .deleteData b => ∀ h ∈ s.pending b, s.client.world.aliasing aliases h = ∅
  | .destroy b => ∀ h ∈ s.pending b, ∀ t ∈ s.client.world.aliasing aliases h,
      s.client.world.LastOwner b t
  | _ => True

structure Lending (aliases : RT → Finset HostBuffer) (s : HostClient RT) : Prop where
  clear : Clear (Lent aliases s.ready s.next_host_buffer) s.client.world
  ready : ∀ h ∈ s.ready, h < s.next_host_buffer
  pending : ∀ b, ∀ h ∈ (s.buffers b).m_done_with_host_buffer_event, h < s.next_host_buffer

theorem init_lending : Lending aliases (init : HostClient RT) where
  clear := ⟨fun _ _ ht => (nomatch ht), fun _ _ ht => (nomatch ht)⟩
  ready h hmem := absurd hmem (Finset.notMem_empty h)
  pending _ _ hmem := nomatch hmem

theorem Lending.returned (hs : Lending aliases s) : Returned aliases s := by
  intro h hready
  refine Finset.eq_empty_of_forall_notMem fun t ht => ?_
  obtain ⟨-, tensor, htensor, hmem⟩ := mem_aliasing.mp ht
  exact (hs.clear.all t tensor htensor h hmem).2 hready

theorem Lending.with_client (hs : Lending aliases s) {client : Client RT}
    (hc : Clear (Lent aliases s.ready s.next_host_buffer) client.world) :
    Lending aliases { s with client } := ⟨hc, hs.ready, hs.pending⟩

-- The event of the buffer stays, or is gone.
theorem Lending.set_buffer (hs : Lending aliases s) {state : HostState}
    (hevent : ∀ h ∈ state.m_done_with_host_buffer_event, h < s.next_host_buffer) :
    Lending aliases (s.set_buffer b state) where
  clear := hs.clear
  ready := hs.ready
  pending b' h hmem := by
    unfold HostClient.set_buffer at hmem
    dsimp only at hmem
    rw [Function.update_apply] at hmem
    split at hmem
    · exact hevent h hmem
    · exact hs.pending b' h hmem

theorem Lending.init_buffer (hs : Lending aliases s) (b : BufferId) :
    Lending aliases (s.set_buffer b .init) := hs.set_buffer fun _ hmem => nomatch hmem

theorem Lending.markAsReady (hs : Lending aliases s) {h : HostBuffer}
    (hh : h < s.next_host_buffer) (hnone : s.client.world.aliasing aliases h = ∅) :
    Lending aliases (s.markAsReady h) where
  clear := by
    refine ⟨hs.clear.pooled, fun t tensor ht h' hmem => ?_⟩
    obtain ⟨hlt, hready⟩ := hs.clear.all t tensor ht h' hmem
    refine ⟨hlt, fun hinsert => ?_⟩
    cases Finset.mem_insert.mp hinsert with
    | inl heq =>
        subst heq
        have hmem : t ∈ s.client.world.aliasing aliases h' :=
          mem_aliasing.mpr ⟨hs.clear.pooled t tensor ht, tensor, ht, hmem⟩
        rw [hnone] at hmem
        exact Finset.notMem_empty t hmem
    | inr hmem => exact hready hmem
  ready h' hmem := by
    cases Finset.mem_insert.mp hmem with
    | inl heq =>
        rw [heq]
        exact hh
    | inr hmem => exact hs.ready h' hmem
  pending := hs.pending

theorem Lending.deleteData (hs : Lending aliases s)
    (hclean : ∀ h ∈ s.pending b, s.client.world.aliasing aliases h = ∅) :
    Lending aliases (s.deleteData b) := by
  unfold HostClient.pending at hclean
  unfold HostClient.deleteData
  dsimp only
  split
  · exact hs
  case isFalse hdeleted =>
    rw [if_neg hdeleted] at hclean
    have hset : Lending aliases (s.set_buffer b { s.buffers b with
        m_data_deleted := true, m_copy_to_host_thread := .not_joinable }) :=
      hs.set_buffer (hs.pending b)
    dsimp only at hset
    cases hevent : (s.buffers b).m_done_with_host_buffer_event with
    | none =>
        rw [hevent] at hset
        exact hset
    | some h =>
        rw [hevent] at hset
        exact hset.markAsReady (hs.pending b h hevent) (hclean h hevent)

theorem deleteData_with_world (s : HostClient RT) (b : BufferId) (world : World RT) :
    (s.with_world world).deleteData b = (s.deleteData b).with_world world := by
  unfold HostClient.deleteData HostClient.with_world
  dsimp only
  by_cases hdeleted : (s.buffers b).m_data_deleted = true
  · rw [if_pos hdeleted, if_pos hdeleted]
  · rw [if_neg hdeleted, if_neg hdeleted]
    cases (s.buffers b).m_done_with_host_buffer_event with
    | none => rfl
    | some h => rfl

theorem Lending.destroy (hs : Lending aliases s) (hclean : ∀ h ∈ s.pending b,
      ∀ t ∈ s.client.world.aliasing aliases h, s.client.world.LastOwner b t)
    (h : s.destroy b = .ok s') : Lending aliases s' := by
  obtain ⟨world, hdestroyed, h⟩ := bind_eq_ok.mp h
  cases h
  have hworld : Lending aliases (s.with_world world) :=
    hs.with_client ((destroy_buffer_evolves hdestroyed).clear hs.clear)
  rw [← deleteData_with_world]
  refine (hworld.deleteData fun h hpending => ?_).init_buffer b
  refine Finset.eq_empty_of_forall_notMem fun t ht => ?_
  obtain ⟨hmem, hno⟩ := (destroy_buffer_aliasing hdestroyed).mp ht
  exact hno (hclean h hpending t hmem)

section Calls

variable (hal : Aliasing runtime aliases) (hap : AgreesApart aliases s.ready runtime runtime')
  (hs : Lending aliases s)

include hal hap hs

-- The memory of the call is aliased by the tensor of the buffer alone, or not at all.
theorem copyFromHost_agree {data : D} {distributed : Bool} {semantics : HostBufferSemantics}
    {data_type : DT} :
    Agree (Lending aliases) (s.copyFromHost runtime b data distributed semantics data_type)
      (s.copyFromHost runtime' b data distributed semantics data_type) := by
  have hnext : ∀ {h}, h < s.next_host_buffer → h < s.next_host_buffer + 1 :=
    fun hlt => Nat.lt_succ_of_lt hlt
  have hcreated := (create_buffer_evolves (Q := Lent aliases s.ready s.next_host_buffer)
    s.client.world b).clear hs.clear
  unfold HostClient.copyFromHost
  dsimp only
  rw [← hap.isSupportedDataType]
  split
  · refine (World.copyFromHost_agree (hal.alike hap s.next_host_buffer 0) hcreated).bind
      fun world _ hworld => .ok ?_
    have hlent : Lending aliases
        (with_world { s with next_host_buffer := s.next_host_buffer + 1 } world) := by
      refine ⟨⟨hworld.pooled, fun t tensor ht h hmem => ?_⟩, fun h hmem => hnext (hs.ready h hmem),
        fun b' h hmem => hnext (hs.pending b' h hmem)⟩
      exact (hworld.all t tensor ht h hmem).imp_left hnext
    refine (hlent.init_buffer b).markAsReady (Nat.lt_succ_self _) ?_
    refine Finset.eq_empty_of_forall_notMem fun t ht => ?_
    obtain ⟨-, tensor, htensor, hmem⟩ := mem_aliasing.mp ht
    exact Nat.lt_irrefl _ (hworld.all t tensor htensor _ hmem).1
  · have hfresh : s.next_host_buffer ∉ s.ready := fun hmem =>
      Nat.lt_irrefl _ (hs.ready _ hmem)
    rw [← hap.createBorrowedHostTensor _ data hfresh]
    have hclear : Clear (Lent aliases s.ready (s.next_host_buffer + 1))
        (s.client.world.create_buffer b) :=
      ⟨hcreated.pooled, fun t tensor ht h hmem => (hcreated.all t tensor ht h hmem).imp_left hnext⟩
    have hborrowed : Lent aliases s.ready (s.next_host_buffer + 1)
        (runtime.createBorrowedHostTensor s.next_host_buffer data) := by
      intro h hmem
      rw [hal.createBorrowedHostTensor, Finset.mem_singleton] at hmem
      subst hmem
      exact ⟨Nat.lt_succ_self _, hfresh⟩
    refine (from_runtime_tensor_agree (hal.alike hap _ 0) hclear hborrowed).bind
      fun p _ hp => .ok ?_
    have hlent : Lending aliases
        (with_world { s with next_host_buffer := s.next_host_buffer + 1 } p.1) :=
      ⟨hp, fun h hmem => hnext (hs.ready h hmem), fun b' h hmem => hnext (hs.pending b' h hmem)⟩
    refine hlent.set_buffer fun h hmem => ?_
    cases hmem
    exact Nat.lt_succ_self _

theorem copy_to_host_thread_agree :
    Agree (fun p => Lending aliases p.1) (s.copy_to_host_thread runtime b)
      (s.copy_to_host_thread runtime' b) := by
  obtain ⟨heq, hclear⟩ := copyToHost_agree (b := b) (hal.alike hap s.next_host_buffer 0) hs.clear
  unfold copy_to_host_thread
  dsimp only
  rw [← heq]
  have hended : Lending aliases
      (s.set_buffer b { s.buffers b with m_copy_to_host_thread := .ended }) :=
    hs.set_buffer (hs.pending b)
  cases hcopied : s.client.world.copyToHost (runtime.on 0) b with
  | ok p => exact .ok (hended.with_client (hclear p hcopied))
  | error fault =>
      cases fault with
      | fatal message => exact .ok hended
      | _ => exact .error _

theorem run_agree (call : HostCall L D DT B) :
    Agree (fun p => Clean aliases s call → Lending aliases p.1) (s.run runtime call)
      (s.run runtime' call) := by
  have ha := hal.alike hap s.next_host_buffer
  cases call with
  | copyFromHost b data distributed semantics data_type =>
      exact (copyFromHost_agree hal hap hs).bind fun s' _ hs' => .ok fun _ => hs'
  | copyToHost b =>
      refine .bind_same fun s' hs' => .ok fun _ => ?_
      obtain ⟨t, -, hs'⟩ := bind_eq_ok.mp hs'
      cases hs'
      exact hs.set_buffer (hs.pending b)
  | copy_to_host_thread b => exact (copy_to_host_thread_agree hal hap hs).mono fun p hp _ => hp
  | copyFromBuffer b src_buffer =>
      have hcreated := (create_buffer_evolves s.client.world b).clear hs.clear
      refine (copyFromBuffer_agree (ha 0) hcreated).bind fun world _ hworld => .ok fun _ => ?_
      have hmade : Lending aliases (s.with_world world) := hs.with_client hworld
      exact hmade.init_buffer b
  | deleteData b => exact .bind_same fun ref _ => .ok fun hclean => hs.deleteData hclean
  | destroy b =>
      exact .bind_same fun s' hs' => .ok fun hclean => hs.destroy hclean hs'
  | compile env optimization_level mesh_shape frontend pipeline =>
      exact (Client.compile_agree ha hs.clear).bind fun c _ hc => .ok fun _ => hs.with_client hc
  | execute env executable device_ids execute_device args output_lists =>
      refine (Client.execute_agree ha ?_ hs.clear).bind fun c _ hc => .ok fun _ => hs.with_client hc
      intro d ins hins
      refine ⟨hap.submit executable.binary d ins fun rt hrt => (hins rt hrt).apart,
        fun outs houts rt hrt => .of_exists hins ?_⟩
      exact hal.submit executable.binary d ins outs houts rt hrt
  | closeOptimizerSubmesh =>
      refine .ok fun _ => hs.with_client ?_
      rw [Client.closeOptimizerSubmesh_world]
      exact hs.clear
  | getOrCreateMeshDevice env mesh_shape =>
      exact (Client.getOrCreateMeshDevice_agree ha hs.clear).bind fun p _ hp =>
        .ok fun _ => hs.with_client hp

end Calls

theorem step_cases {call : HostCall L D DT B} (h : s.step runtime call = some s') :
    s.Enabled call ∧ ∃ copied, s.run runtime call = .ok (s', copied) := by
  unfold step at h
  split at h
  case isTrue henabled =>
    obtain ⟨p, hp, rfl⟩ := Option.map_eq_some_iff.mp h
    exact ⟨henabled, p.2, eq_ok_of_toOption hp⟩
  case isFalse => cases h

theorem Lending.step (hal : Aliasing runtime aliases) (hs : Lending aliases s)
    {call : HostCall L D DT B} (hclean : Clean aliases s call)
    (h : s.step runtime call = some s') : Lending aliases s' := by
  obtain ⟨-, copied, hrun⟩ := step_cases h
  exact (run_agree hal (.refl aliases s.ready runtime) hs call).2 _ hrun hclean

theorem reachable_lending (hal : Aliasing runtime aliases)
    (h : Reachable (step runtime) (Clean aliases) init s) : Lending aliases s :=
  h.invariant (Lending aliases) init_lending fun _ _ _ hs hclean hstep =>
    hs.step hal hclean hstep

theorem mem_ready_of_deleteData {h : HostBuffer} (hmem : h ∈ s.pending b) :
    h ∈ (s.deleteData b).ready := by
  unfold HostClient.pending at hmem
  unfold HostClient.deleteData
  dsimp only
  split at hmem
  · cases hmem
  case isFalse hdeleted =>
    rw [if_neg hdeleted, Option.mem_def.mp hmem]
    exact Finset.mem_insert_self h _

theorem deleteData_world : (s.deleteData b).client = s.client := by
  unfold HostClient.deleteData
  dsimp only
  split
  · rfl
  · split
    · rfl
    · rfl

-- The memory of a buffer that is not clean is still aliased.
theorem clean_of_returned {call : HostCall L D DT B} (hstep : s.step runtime call = some s')
    (hs' : Returned aliases s') : Clean aliases s call := by
  obtain ⟨-, copied, hrun⟩ := step_cases hstep
  cases call with
  | deleteData b =>
      intro h hmem
      obtain ⟨ref, -, hrun⟩ := bind_eq_ok.mp hrun
      cases hrun
      have hnone := hs' h (mem_ready_of_deleteData hmem)
      rw [deleteData_world] at hnone
      exact hnone
  | destroy b =>
      intro h hmem t ht
      obtain ⟨s₁, hdestroy, hrun⟩ := bind_eq_ok.mp hrun
      cases hrun
      obtain ⟨world, hdestroyed, hdestroy⟩ := bind_eq_ok.mp hdestroy
      cases hdestroy
      have hnone : world.aliasing aliases h = ∅ := hs' h (mem_ready_of_deleteData hmem)
      by_contra hno
      have hleft : t ∈ world.aliasing aliases h :=
        (destroy_buffer_aliasing hdestroyed).mpr ⟨ht, hno⟩
      rw [hnone] at hleft
      exact Finset.notMem_empty t hleft
  | _ => trivial

-- A run keeps the host memory that it gave back apart from every call that follows, as long as
-- the buffers are clean when they are deleted or destroyed.
theorem returned_iff (hal : Aliasing runtime aliases)
    (h : Reachable (step runtime) (Clean aliases) init s) :
    Returned aliases s ∧
      (∀ runtime', AgreesApart aliases s.ready runtime runtime' →
        ∀ call, s.run runtime' call = s.run runtime call) ∧
      ∀ call s', s.step runtime call = some s' → (Returned aliases s' ↔ Clean aliases s call) := by
  have hs := reachable_lending hal h
  refine ⟨hs.returned, fun runtime' hap call => (run_agree hal hap hs call).1.symm,
    fun call s' hstep => ⟨clean_of_returned hstep, fun hclean => ?_⟩⟩
  exact (hs.step hal hclean hstep).returned

-- Tensors that are on the host, in borrowed memory or not, or on a device.
inductive Place where
  | host (borrowed : Option HostBuffer)
  | device
deriving DecidableEq

def Place.memory : Place → Finset HostBuffer
  | .host (some h) => {h}
  | _ => ∅

def lenders : HostRuntime Place Unit Unit Unit Unit where
  toHost rt := if rt = .device then [.host none] else [rt]
  setTensorRetain rt _ := rt
  createMultiDeviceHostTensor _ _ _ := .host none
  hasLayout rt _ := rt = .device
  toLayout _ _ _ _ := .device
  getTensorRetain _ := true
  isTensorAllocated _ := true
  memcpy _ := ()
  createOwnedHostTensor _ := .host none
  isSupportedDataType _ := true
  createBorrowedHostTensor h _ := .host (some h)
  submit _ _ _ := some [.device]

theorem lenders_aliasing : Aliasing lenders Place.memory where
  setTensorRetain _ _ := Finset.Subset.refl _
  toHost rt x hx := by
    change x ∈ (if rt = .device then [Place.host none] else [rt]) at hx
    split at hx
    · rw [List.mem_singleton.mp hx]
      exact Finset.empty_subset _
    · rw [List.mem_singleton.mp hx]
  createMultiDeviceHostTensor _ _ _ h hmem := absurd hmem (Finset.notMem_empty h)
  toLayout _ _ _ _ := Finset.empty_subset _
  createOwnedHostTensor _ := rfl
  createBorrowedHostTensor _ _ := rfl
  submit _ _ _ outs houts rt hrt h hmem := by
    cases houts
    rw [List.mem_singleton.mp hrt] at hmem
    exact absurd hmem (Finset.notMem_empty h)

def borrow (b : BufferId) : HostCall Unit Unit Unit Unit :=
  .copyFromHost b () false .kImmutableZeroCopy ()

-- A call on buffer 0 with the output in buffer 1.
def call_binary : HostCall Unit Unit Unit Unit :=
  .execute Client.single_device ⟨1, 1, [1, 1], ()⟩ {0} none [⟨[0], ⟨.Identity, []⟩, ()⟩] [[1]]

instance (call : HostCall Unit Unit Unit Unit) (s : HostClient Place) :
    Decidable (Clean Place.memory s call) := by
  unfold Clean
  split <;> infer_instance

-- Buffer 0 is deleted when its tensor is on the device, and buffer 2 is destroyed.
def lendings : List (HostCall Unit Unit Unit Unit) :=
  [borrow 0, call_binary, .deleteData 0, .copyToHost 1, borrow 2, .copy_to_host_thread 1,
    .destroy 2, .destroy 0]

theorem lendings_run : (exec (step lenders) (Clean Place.memory) init lendings).isSome := by
  decide +kernel

def lendings_end : HostClient Place :=
  (exec (step lenders) (Clean Place.memory) init lendings).get lendings_run

theorem lendings_returned : Returned Place.memory lendings_end ∧
    (∀ runtime', AgreesApart Place.memory lendings_end.ready lenders runtime' →
      ∀ call, lendings_end.run runtime' call = lendings_end.run lenders call) ∧
    ∀ call s', lendings_end.step lenders call = some s' →
      (Returned Place.memory s' ↔ Clean Place.memory lendings_end call) :=
  returned_iff lenders_aliasing (.of_exec lendings .start (Option.some_get _).symm)

def deletion : List (HostCall Unit Unit Unit Unit) := [borrow 0, .deleteData 0]

theorem deletion_run : (exec (step lenders) (fun _ _ => True) init deletion).isSome := by
  decide +kernel

-- The tensor of a buffer that is deleted stays in the pool, in the host memory.
theorem deleted_buffer_aliases : ¬∀ s, Reachable (step lenders) (fun _ _ => True) init s →
    Returned Place.memory s ∧ ∀ runtime', AgreesApart Place.memory s.ready lenders runtime' →
      ∀ call, s.run runtime' call = s.run lenders call := by
  intro h
  have hreach : Reachable (step lenders) (fun _ _ => True) init _ :=
    .of_exec deletion .start (Option.some_get deletion_run).symm
  have hnone := (h _ hreach).1 0 (by decide +kernel)
  exact absurd hnone (by decide +kernel)

end TTXla.PJRT.HostClient
