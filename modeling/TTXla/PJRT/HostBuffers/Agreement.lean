import TTXla.Lib.Agreement
import TTXla.PJRT.HostBuffers
import TTXla.PJRT.Mesh.Lifecycle

-- Two runtimes that agree on the runtime tensors with some property do the same with tensors
-- that have it.
namespace TTXla.PJRT

open Excepts

-- The functions of the runtimes agree on the tensors with `Q`, and keep it.
structure Alike {RT L D : Type} (Q : RT → Prop) (runtime runtime' : DeviceRuntime RT L D) :
    Prop where
  setTensorRetain : ∀ rt, Q rt →
    runtime.setTensorRetain rt true = runtime'.setTensorRetain rt true ∧
      Q (runtime.setTensorRetain rt true)
  toHost : ∀ rt, Q rt → runtime.toHost rt = runtime'.toHost rt ∧ ∀ x ∈ runtime.toHost rt, Q x
  createMultiDeviceHostTensor : ∀ tensors strategy mesh_shape, (∀ rt ∈ tensors, Q rt) →
    runtime.createMultiDeviceHostTensor tensors strategy mesh_shape =
        runtime'.createMultiDeviceHostTensor tensors strategy mesh_shape ∧
      Q (runtime.createMultiDeviceHostTensor tensors strategy mesh_shape)
  hasLayout : ∀ rt layout, Q rt → runtime.hasLayout rt layout = runtime'.hasLayout rt layout
  toLayout : ∀ rt layout retain, Q rt →
    runtime.toLayout rt layout retain = runtime'.toLayout rt layout retain ∧
      Q (runtime.toLayout rt layout retain)
  getTensorRetain : ∀ rt, Q rt → runtime.getTensorRetain rt = runtime'.getTensorRetain rt
  isTensorAllocated : ∀ rt, Q rt → runtime.isTensorAllocated rt = runtime'.isTensorAllocated rt
  memcpy : ∀ rt, Q rt → runtime.memcpy rt = runtime'.memcpy rt
  createOwnedHostTensor : ∀ data,
    runtime.createOwnedHostTensor data = runtime'.createOwnedHostTensor data ∧
      Q (runtime.createOwnedHostTensor data)

namespace World

variable {RT L D : Type} {Q : RT → Prop} {runtime runtime' : DeviceRuntime RT L D}
  {w w' : World RT} {t : TensorPtr} {b : BufferId} {shards : List BufferId}

-- Every tensor is in the pool, and its runtime tensor has the property.
structure Clear (Q : RT → Prop) (w : World RT) : Prop where
  pooled : w.Pooled
  all : w.All Q

theorem Evolves.clear (h : Evolves Q w w') (hw : Clear Q w) : Clear Q w' :=
  ⟨h.pooled hw.pooled, h.all hw.all⟩

theorem from_runtime_tensor_agree (ha : Alike Q runtime runtime') (hw : Clear Q w) {rt : RT}
    (hrt : Q rt) :
    Agree (fun p => Clear Q p.1) (w.from_runtime_tensor runtime.toRuntime shards rt)
      (w.from_runtime_tensor runtime'.toRuntime shards rt) := by
  obtain ⟨heq, hq⟩ := ha.setTensorRetain rt hrt
  have hrun : w.from_runtime_tensor runtime.toRuntime shards rt =
      w.from_runtime_tensor runtime'.toRuntime shards rt := by
    unfold from_runtime_tensor
    rw [heq]
  exact ⟨hrun, fun p hp => (from_runtime_tensor_evolves hq hp).clear hw⟩

theorem rt_tensor_from_strategy_agree (ha : Alike Q runtime runtime') (hw : Clear Q w)
    {strategy : Strategy} {mesh_shape : List Nat} :
    Agree Q (w.rt_tensor_from_strategy runtime.toRuntime shards strategy mesh_shape)
      (w.rt_tensor_from_strategy runtime'.toRuntime shards strategy mesh_shape) := by
  unfold rt_tensor_from_strategy
  refine .bind_same fun name _ => ?_
  split
  · exact .bind_same fun front _ => .refl fun rt hrt => runtimeTensor_all hw.all hrt
  · refine .bind_same fun tensors htensors => ?_
    have hq : ∀ rt ∈ tensors, Q rt := by
      intro rt hrt
      obtain ⟨b, -, hb⟩ := exists_of_mapM htensors hrt
      exact runtimeTensor_all hw.all hb
    obtain ⟨heq, hmulti⟩ := ha.createMultiDeviceHostTensor tensors strategy mesh_shape hq
    rw [← heq]
    exact .ok hmulti

theorem from_pjrt_buffers_agree (ha : Alike Q runtime runtime') (hw : Clear Q w)
    {strategy : Strategy} {mesh_shape : List Nat} :
    Agree (fun p => Clear Q p.1)
      (w.from_pjrt_buffers runtime.toRuntime shards mesh_shape strategy)
      (w.from_pjrt_buffers runtime'.toRuntime shards mesh_shape strategy) := by
  unfold from_pjrt_buffers
  refine .bind_same fun same _ => ?_
  split
  · exact .bind_same fun t _ => .ok hw
  · refine (rt_tensor_from_strategy_agree ha hw).bind fun rt _ hrt => ?_
    exact from_runtime_tensor_agree ha hw hrt

theorem move_shard_agree (ha : Alike Q runtime runtime') (hw : Clear Q w) {tensors : List RT}
    (htensors : ∀ rt ∈ tensors, Q rt) {i : Nat} :
    Agree (Clear Q) (w.move_shard runtime.toRuntime t tensors i)
      (w.move_shard runtime'.toRuntime t tensors i) := by
  unfold move_shard
  refine .bind_same fun this hthis => .bind_same fun shard _ => ?_
  have hthis := hw.all t this (get_eq_ok.mp hthis)
  cases shard with
  | none => exact .ok hw
  | some b =>
      have hmade : ∀ rt, Q rt → Agree (Clear Q)
          (w.from_runtime_tensor runtime.toRuntime [b] rt >>= fun p => .ok p.1)
          (w.from_runtime_tensor runtime'.toRuntime [b] rt >>= fun p => .ok p.1) :=
        fun rt hrt => (from_runtime_tensor_agree ha hw hrt).bind fun p _ hp => .ok hp
      dsimp only
      split
      · exact hmade _ hthis
      · exact .bind_same fun rt hrt =>
          hmade rt (htensors rt (List.mem_of_getElem? (get_eq_ok.mp hrt)))

theorem move_to_host_agree (ha : Alike Q runtime runtime') (hw : Clear Q w) :
    Agree (Clear Q) (w.move_to_host runtime.toRuntime t)
      (w.move_to_host runtime'.toRuntime t) := by
  unfold move_to_host
  refine .bind_same fun this hthis => ?_
  have ht := get_eq_ok.mp hthis
  obtain ⟨heq, htensors⟩ := ha.toHost _ (hw.all t this ht)
  dsimp only
  rw [← heq]
  refine .bind_same fun _ _ => .bind_same fun first hfirst => ?_
  have hq := htensors first (List.mem_of_getElem? (get_eq_ok.mp hfirst))
  have hset : Evolves Q w (w.set_tensor t { this with m_runtime_tensor := first }) :=
    .set_tensor ht (.inl hq)
  have hmoved := Agree.foldlM (l := List.range' 1 (this.m_shards.length - 1))
    (fun w i _ hw => move_shard_agree (t := t) (i := i) ha hw htensors) (hset.clear hw)
  refine hmoved.bind fun w₁ _ hw₁ => .bind_same fun this₁ hthis₁ => .ok ?_
  have hlast : Evolves Q w₁
      (w₁.set_tensor t { this₁ with m_shards := [this₁.m_shards.headD none] }) :=
    .set_tensor (get_eq_ok.mp hthis₁) (.inr rfl)
  exact hlast.clear hw₁

theorem move_tensors_to_host_agree (ha : Alike Q runtime runtime') (hw : Clear Q w)
    {tensors : List TensorPtr} :
    Agree (Clear Q) (w.move_tensors_to_host runtime.toRuntime tensors)
      (w.move_tensors_to_host runtime'.toRuntime tensors) :=
  .foldlM (fun _ _ _ hw => move_to_host_agree ha hw) hw

theorem ensure_layout_agree (ha : Alike Q runtime runtime') (hw : Clear Q w) {layout : L} :
    Agree (Clear Q) (w.ensure_layout runtime t layout) (w.ensure_layout runtime' t layout) := by
  unfold ensure_layout
  refine .bind_same fun tensor ht => ?_
  have ht := get_eq_ok.mp ht
  have hq := hw.all t tensor ht
  rw [← ha.hasLayout _ layout hq]
  split
  · exact .ok hw
  · obtain ⟨heq, hlaid⟩ := ha.toLayout tensor.m_runtime_tensor layout
      (runtime.getTensorRetain tensor.m_runtime_tensor) hq
    dsimp only
    rw [← ha.getTensorRetain _ hq, ← heq]
    exact .ok ((Evolves.set_tensor ht (.inl hlaid)).clear hw)

theorem prepareInputTensor_agree (ha : Alike Q runtime runtime') (hw : Clear Q w)
    {arg : Argument L} {num_devices : Nat} {mesh_shape : List Nat} :
    Agree (fun p => Clear Q p.1 ∧ ∀ rt ∈ p.2, Q rt)
      (w.prepareInputTensor runtime arg num_devices mesh_shape)
      (w.prepareInputTensor runtime' arg num_devices mesh_shape) := by
  unfold prepareInputTensor
  refine .bind_same fun strategy _ => ?_
  cases strategy with
  | none => exact .ok ⟨hw, fun rt hrt => nomatch hrt⟩
  | some strategy =>
      refine (from_pjrt_buffers_agree ha hw).bind fun p _ hp => ?_
      refine (ensure_layout_agree ha hp).bind fun w₂ _ hw₂ => ?_
      refine .bind_same fun tensor ht => .ok ⟨hw₂, fun rt hrt => ?_⟩
      cases hrt
      exact hw₂.all _ tensor (get_eq_ok.mp ht)

theorem getInputRuntimeTensors_agree (ha : Alike Q runtime runtime') {num_devices : Nat}
    {mesh_shape : List Nat} {args : List (Argument L)} {ins : List RT} (hw : Clear Q w)
    (hins : ∀ rt ∈ ins, Q rt) :
    Agree (fun p => Clear Q p.1 ∧ ∀ rt ∈ p.2.2, Q rt)
      (getInputRuntimeTensors runtime num_devices mesh_shape args w ins)
      (getInputRuntimeTensors runtime' num_devices mesh_shape args w ins) := by
  induction args generalizing w ins with
  | nil => exact .ok ⟨hw, hins⟩
  | cons arg args ih =>
      refine (prepareInputTensor_agree ha hw).bind fun p _ hp => ?_
      obtain ⟨w₁, prepared⟩ := p
      obtain ⟨hw₁, hprepared⟩ := hp
      cases prepared with
      | none => exact .ok ⟨hw₁, hins⟩
      | some prepared =>
          have hq := hprepared prepared rfl
          have hnext : ∀ rt ∈ ins ++ [prepared], Q rt := by
            intro rt hrt
            cases List.mem_append.mp hrt with
            | inl hrt => exact hins rt hrt
            | inr hrt =>
                rw [List.mem_singleton.mp hrt]
                exact hq
          dsimp only
          rw [← ha.getTensorRetain _ hq, ← ha.isTensorAllocated _ hq]
          split
          · exact .ok ⟨hw₁, hnext⟩
          · split
            · exact .ok ⟨hw₁, hnext⟩
            · exact ih hw₁ hnext

theorem fillPJRTOutputLists_agree (ha : Alike Q runtime runtime') (hw : Clear Q w)
    {outputs : List (RT × List BufferId)} (hq : ∀ x ∈ outputs, Q x.1) :
    Agree (Clear Q) (w.fillPJRTOutputLists runtime outputs)
      (w.fillPJRTOutputLists runtime' outputs) := by
  refine .foldlM (fun w x hx hw => ?_) hw
  have hmade := (create_buffers_evolves (Q := Q) w x.2).clear hw
  exact (from_runtime_tensor_agree ha hmade (hq x hx)).bind fun p _ hp => .ok hp

theorem copyToHost_agree (ha : Alike Q runtime runtime') (hw : Clear Q w) :
    Agree (fun p => Clear Q p.1) (w.copyToHost runtime b) (w.copyToHost runtime' b) := by
  unfold copyToHost
  refine .bind_same fun t _ => (move_to_host_agree ha hw).bind fun w₁ _ hw₁ => ?_
  refine .bind_same fun rt hrt => ?_
  rw [← ha.memcpy rt (runtimeTensor_all hw₁.all hrt)]
  exact .ok hw₁

theorem copyFromHost_agree (ha : Alike Q runtime runtime') (hw : Clear Q w) {data : D} :
    Agree (Clear Q) (w.copyFromHost runtime b data) (w.copyFromHost runtime' b data) := by
  obtain ⟨heq, howned⟩ := ha.createOwnedHostTensor data
  unfold copyFromHost
  rw [← heq]
  exact (from_runtime_tensor_agree ha hw howned).bind fun p _ hp => .ok hp

theorem copyFromBuffer_agree (ha : Alike Q runtime runtime') (hw : Clear Q w)
    {src_buffer : BufferId} :
    Agree (Clear Q) (w.copyFromBuffer runtime b src_buffer)
      (w.copyFromBuffer runtime' b src_buffer) :=
  (copyToHost_agree ha hw).bind fun _ _ hp => copyFromHost_agree ha hp

end World

namespace Client

open World

variable {RT L D : Type} {Q : RT → Prop} {runtime runtime' : MeshRuntime RT L D}
  {c : Client RT} {env : Environment} {mesh_shape : List Nat}

theorem open_parent_world : (c.open_parent env mesh_shape).1.world = c.world := by
  unfold open_parent openMeshDevice
  split
  · rename_i heq
    split at heq
    · cases heq
      rfl
    · cases heq
  · rename_i heq
    split at heq
    · cases heq
    · cases heq
      rfl

theorem closeOptimizerSubmesh_world : c.closeOptimizerSubmesh.world = c.world := by
  unfold closeOptimizerSubmesh
  split
  · rfl
  · rfl

-- The pipeline, after the submesh is closed.
def compile_pipeline (runtime : MeshRuntime RT L D) (env : Environment) (mesh_shape : List Nat)
    (pipeline : Bool) (current_mesh_shape : Option (List Nat)) (made : Client RT × Bool) :
    Except Fault (Client RT) :=
  if !made.2 then return made.1
  else if !pipeline then return made.1.closeOptimizerSubmesh
  else if current_mesh_shape.isSome && current_mesh_shape != some mesh_shape then do
    let (c, _) ← made.1.closeOptimizerSubmesh.getOrCreateMeshDevice runtime env mesh_shape
    return c
  else return made.1.closeOptimizerSubmesh

section Calls

variable (ha : ∀ d, Alike Q (runtime.on d) (runtime'.on d))

include ha

theorem getOrCreateMeshDevice_agree (hc : Clear Q c.world) :
    Agree (fun p => Clear Q p.1.world) (c.getOrCreateMeshDevice runtime env mesh_shape)
      (c.getOrCreateMeshDevice runtime' env mesh_shape) := by
  unfold getOrCreateMeshDevice
  split
  · refine .ok ?_
    rw [open_parent_world]
    exact hc
  · refine .bind_same fun shape _ => ?_
    dsimp only
    split
    · exact .ok hc
    · refine (move_tensors_to_host_agree (ha 0) hc).bind fun world _ hworld => .ok ?_
      rw [open_parent_world, closeMeshDevice_none.2.2]
      exact hworld

theorem getOrCreateOptimizerSubmesh_agree (hc : Clear Q c.world) :
    Agree (fun p => Clear Q p.1.world) (c.getOrCreateOptimizerSubmesh runtime env mesh_shape)
      (c.getOrCreateOptimizerSubmesh runtime' env mesh_shape) := by
  unfold getOrCreateOptimizerSubmesh
  refine (getOrCreateMeshDevice_agree ha hc).bind fun p _ hp => ?_
  obtain ⟨c₁, parent_mesh⟩ := p
  cases parent_mesh with
  | none => exact .ok hp
  | some parent_mesh =>
      -- neither runtime is asked for the submesh
      have hlast : ∀ (reusable : Bool) (submesh : Option DeviceHandle)
          (made : Client RT × Option DeviceHandle), (if reusable then pure (c₁, submesh)
            else if env.creates_submesh then do
              let mesh ← get (c₁.open_meshes parent_mesh) Fault.use_after_free
              pure ({ c₁ with
                m_optimizer_submesh := some c₁.next_device
                open_meshes := Function.update c₁.open_meshes c₁.next_device
                  (some ⟨mesh_shape, mesh.fabric_config, some parent_mesh⟩)
                next_device := c₁.next_device + 1 }, some c₁.next_device)
            else pure ({ c₁ with m_optimizer_submesh := none }, none)) = Except.ok made →
              Clear Q made.1.world := by
        intro reusable submesh made hmade
        split at hmade
        · cases hmade
          exact hp
        · split at hmade
          · obtain ⟨mesh, -, hmade⟩ := bind_eq_ok.mp hmade
            cases hmade
            exact hp
          · cases hmade
            exact hp
      dsimp only
      cases c₁.m_optimizer_submesh with
      | none => exact .refl (hlast false none)
      | some d =>
          exact .bind_same fun shape _ => .refl (hlast (decide (shape = mesh_shape)) (some d))

theorem compile_pipeline_agree {pipeline : Bool} {current_mesh_shape : Option (List Nat)}
    {made : Client RT × Bool} (hc : Clear Q made.1.world) :
    Agree (fun c => Clear Q c.world)
      (compile_pipeline runtime env mesh_shape pipeline current_mesh_shape made)
      (compile_pipeline runtime' env mesh_shape pipeline current_mesh_shape made) := by
  have hclosed : Clear Q made.1.closeOptimizerSubmesh.world := by
    rw [closeOptimizerSubmesh_world]
    exact hc
  unfold compile_pipeline
  split
  · exact .ok hc
  · split
    · exact .ok hclosed
    · split
      · exact (getOrCreateMeshDevice_agree ha hclosed).bind fun p _ hp => .ok hp
      · exact .ok hclosed

theorem compile_agree {optimization_level : Int} {frontend pipeline : Bool}
    (hc : Clear Q c.world) :
    Agree (fun c => Clear Q c.world)
      (c.compile runtime env optimization_level mesh_shape frontend pipeline)
      (c.compile runtime' env optimization_level mesh_shape frontend pipeline) := by
  have hbody : ∀ current : Option (List Nat), Agree (fun c => Clear Q c.world)
      (if !frontend then .ok c
      else if 1 ≤ optimization_level then
        c.getOrCreateOptimizerSubmesh runtime env mesh_shape >>= fun made =>
          compile_pipeline runtime env mesh_shape pipeline current (made.1, made.2.isSome)
      else compile_pipeline runtime env mesh_shape pipeline current (c, true))
      (if !frontend then .ok c
      else if 1 ≤ optimization_level then
        c.getOrCreateOptimizerSubmesh runtime' env mesh_shape >>= fun made =>
          compile_pipeline runtime' env mesh_shape pipeline current (made.1, made.2.isSome)
      else compile_pipeline runtime' env mesh_shape pipeline current (c, true)) := by
    intro current
    split
    · exact .ok hc
    · split
      · exact (getOrCreateOptimizerSubmesh_agree ha hc).bind fun made _ hmade =>
          compile_pipeline_agree ha hmade
      · exact compile_pipeline_agree ha hc
  unfold compile
  dsimp only
  split
  · exact .bind_same fun current _ => hbody current
  · exact .bind_same fun current _ => hbody current

theorem executable_mesh_agree {program : Program RT} {device_ids : Finset Int}
    {execute_device : Option Int} (hc : Clear Q c.world) :
    Agree (fun p => Clear Q p.1.world)
      (c.executable_mesh runtime env program device_ids execute_device)
      (c.executable_mesh runtime' env program device_ids execute_device) := by
  unfold executable_mesh
  dsimp only
  split
  · exact .ok hc
  · split
    · exact getOrCreateMeshDevice_agree ha hc
    · exact .ok hc

theorem prepare_agree {program : Program RT} {device_ids : Finset Int}
    {execute_device : Option Int} {args : List (Argument L)} (hc : Clear Q c.world) :
    Agree (fun p => Clear Q p.1.world ∧ ∀ x ∈ p.2, ∀ rt ∈ x.2, Q rt)
      (c.prepare runtime env program device_ids execute_device args)
      (c.prepare runtime' env program device_ids execute_device args) := by
  unfold prepare
  split
  · exact .ok ⟨hc, fun x hx => nomatch hx⟩
  · refine (executable_mesh_agree ha hc).bind fun p _ hp => ?_
    obtain ⟨c₁, runtime_device⟩ := p
    cases runtime_device with
    | none => exact .ok ⟨hp, fun x hx => nomatch hx⟩
    | some d =>
        refine (getInputRuntimeTensors_agree (ha d) hp (by simp)).bind fun p _ hp => ?_
        obtain ⟨world, status, input_tensors⟩ := p
        dsimp only
        split
        · exact .ok ⟨hp.1, fun x hx => nomatch hx⟩
        · refine .ok ⟨hp.1, fun x hx => ?_⟩
          cases hx
          exact hp.2

theorem execute_agree {program : Program RT}
    {submit : DeviceHandle → List RT → Option (List RT)}
    (hsubmit : ∀ d ins, (∀ rt ∈ ins, Q rt) → program.submit d ins = submit d ins ∧
      ∀ outs ∈ program.submit d ins, ∀ rt ∈ outs, Q rt)
    {device_ids : Finset Int} {execute_device : Option Int} {args : List (Argument L)}
    {output_lists : List (List BufferId)} (hc : Clear Q c.world) :
    Agree (fun c => Clear Q c.world)
      (c.execute runtime env program device_ids execute_device args output_lists)
      (c.execute runtime' env { program with submit } device_ids execute_device args
        output_lists) := by
  unfold execute
  refine (prepare_agree ha hc).bind fun p _ hp => ?_
  obtain ⟨c₁, prepared⟩ := p
  obtain ⟨hc₁, hinputs⟩ := hp
  cases prepared with
  | none => exact .ok hc₁
  | some prepared =>
      obtain ⟨d, input_tensors⟩ := prepared
      obtain ⟨heq, houtputs⟩ := hsubmit d input_tensors (hinputs _ rfl)
      dsimp only
      rw [← heq]
      cases hsubmitted : program.submit d input_tensors with
      | none =>
          refine .ok ?_
          rw [closeMeshDevice_none.2.2]
          exact hc₁
      | some output_tensors =>
          have hq := houtputs output_tensors hsubmitted
          dsimp only
          split
          · exact .ok hc₁
          · refine (fillPJRTOutputLists_agree (ha d) hc₁ fun x hx => ?_).bind
              fun world _ hworld => .ok hworld
            exact hq x.1 (List.of_mem_zip hx).1

end Calls

end Client

end TTXla.PJRT
