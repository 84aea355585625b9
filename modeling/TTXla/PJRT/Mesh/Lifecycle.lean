import Mathlib.Data.Finset.Sort
import TTXla.Lib.Run
import TTXla.PJRT.Mesh
import TTXla.PJRT.Mesh.Residence

-- The stored meshes are open, and the tensors reside on the open meshes as long as no mesh is
-- closed under them.
namespace TTXla.PJRT.Client

open Excepts World

variable {RT L D : Type} {runtime : MeshRuntime RT L D} {env : Environment}
  {resides : RT → Option DeviceHandle} {c c' : Client RT} {d : DeviceHandle} {shape : List Nat}
  {created : Option DeviceHandle}

-- Where the tensors of the runtime reside: on the host, or on the devices of a mesh.
structure Residency (runtime : MeshRuntime RT L D) (resides : RT → Option DeviceHandle) :
    Prop where
  setTensorRetain : ∀ rt retain, resides (runtime.setTensorRetain rt retain) = resides rt
  toHost : ∀ rt, ∀ x ∈ runtime.toHost rt, resides x = none
  createMultiDeviceHostTensor : ∀ tensors strategy mesh_shape,
    resides (runtime.createMultiDeviceHostTensor tensors strategy mesh_shape) = none
  toLayout : ∀ d rt layout retain, resides (runtime.toLayout d rt layout retain) = none ∨
    resides (runtime.toLayout d rt layout retain) = some d
  createOwnedHostTensor : ∀ data, resides (runtime.createOwnedHostTensor data) = none

-- On the host, or on the given mesh when there is one.
def On (resides : RT → Option DeviceHandle) (mesh : Option DeviceHandle) (rt : RT) : Prop :=
  resides rt = none ∨ resides rt = mesh

theorem Residency.closed (h : Residency runtime resides) (mesh : Option DeviceHandle) :
    Closed runtime.toRuntime (On resides mesh) where
  setTensorRetain rt hrt := by
    unfold On
    rw [h.setTensorRetain]
    exact hrt
  toHost rt x hx := .inl (h.toHost rt x hx)
  createMultiDeviceHostTensor tensors strategy mesh_shape :=
    .inl (h.createMultiDeviceHostTensor tensors strategy mesh_shape)

theorem On.of_none {mesh : Option DeviceHandle} {rt : RT} (h : On resides none rt) :
    On resides mesh rt := by
  cases h with
  | inl h => exact .inl h
  | inr h => exact .inl h

def Resident (resides : RT → Option DeviceHandle) (c : Client RT) : Prop :=
  c.world.All (On resides c.m_parent_mesh)

-- The stored handles are those of open meshes, and every tensor is in the pool.
structure Sound (c : Client RT) : Prop where
  parent : ∀ d, c.m_parent_mesh = some d → ∃ mesh, c.open_meshes d = some mesh ∧
    mesh.parent = none ∧ c.m_fabric_config.map (·.globalConfig) = some mesh.fabric_config
  submesh : ∀ d, c.m_optimizer_submesh = some d → ∃ p mesh, c.m_parent_mesh = some p ∧
    c.open_meshes d = some mesh ∧ mesh.parent = some p
  fresh : ∀ d mesh, c.open_meshes d = some mesh → d < c.next_device
  pooled : c.world.Pooled

-- What a call keeps.
structure Keeps (resides : RT → Option DeviceHandle) (c c' : Client RT) : Prop where
  sound : Sound c'
  resident : Resident resides c → Resident resides c'

theorem Keeps.refl (hs : Sound c) : Keeps resides c c := ⟨hs, fun h => h⟩

theorem Keeps.trans {c'' : Client RT} (h : Keeps resides c c') (h' : Keeps resides c' c'') :
    Keeps resides c c'' :=
  ⟨h'.sound, fun hr => h'.resident (h.resident hr)⟩

-- The tensors change, and the meshes do not.
theorem Keeps.world (hs : Sound c) {world : World RT}
    (hpool : Evolves (fun _ => True) c.world world)
    (hon : Resident resides c → Evolves (On resides c.m_parent_mesh) c.world world) :
    Keeps resides c { c with world } where
  sound := ⟨hs.parent, hs.submesh, hs.fresh, hpool.pooled hs.pooled⟩
  resident hr := (hon hr).all hr

theorem init_sound : Sound (init : Client RT) where
  parent d hd := by cases hd
  submesh d hd := by cases hd
  fresh d mesh hd := by cases hd
  pooled t tensor ht := by cases ht

theorem init_resident : Resident resides (init : Client RT) := by
  intro t tensor ht
  cases ht

-- The submesh is not the parent mesh.
theorem Sound.closeOptimizerSubmesh (hs : Sound c) : Sound c.closeOptimizerSubmesh := by
  unfold Client.closeOptimizerSubmesh
  cases hsub : c.m_optimizer_submesh with
  | none => exact hs
  | some d =>
      obtain ⟨p, submesh, -, hopen, hparent⟩ := hs.submesh d hsub
      constructor
      · intro p' hp'
        obtain ⟨mesh, hmesh, hnone, hfabric⟩ := hs.parent p' hp'
        have hne : p' ≠ d := by
          intro heq
          subst heq
          cases Option.some.inj (hmesh.symm.trans hopen)
          rw [hparent] at hnone
          cases hnone
        exact ⟨mesh, (Function.update_of_ne hne none c.open_meshes).trans hmesh, hnone, hfabric⟩
      · intro d' hd'
        cases hd'
      · intro d' mesh hd'
        dsimp only at hd'
        rw [Function.update_apply] at hd'
        split at hd'
        · cases hd'
        · exact hs.fresh d' mesh hd'
      · exact hs.pooled

theorem closeOptimizerSubmesh_keeps (hs : Sound c) : Keeps resides c c.closeOptimizerSubmesh where
  sound := hs.closeOptimizerSubmesh
  resident hr := by
    unfold Client.closeOptimizerSubmesh
    split
    · exact hr
    · exact hr

theorem closeOptimizerSubmesh_none : c.closeOptimizerSubmesh.m_optimizer_submesh = none := by
  unfold Client.closeOptimizerSubmesh
  split
  · rfl
  · assumption

theorem closeMeshDevice_none :
    c.closeMeshDevice.m_parent_mesh = none ∧ c.closeMeshDevice.m_optimizer_submesh = none ∧
      c.closeMeshDevice.world = c.world := by
  have hworld : c.closeOptimizerSubmesh.world = c.world := by
    unfold Client.closeOptimizerSubmesh
    split
    · rfl
    · rfl
  unfold closeMeshDevice closeParentMesh
  split
  · exact ⟨rfl, closeOptimizerSubmesh_none, hworld⟩
  · exact ⟨by assumption, closeOptimizerSubmesh_none, hworld⟩

theorem Sound.closeMeshDevice (hs : Sound c) : Sound c.closeMeshDevice := by
  obtain ⟨hparent, hsub, hworld⟩ := closeMeshDevice_none (c := c)
  constructor
  · intro d hd
    rw [hparent] at hd
    cases hd
  · intro d hd
    rw [hsub] at hd
    cases hd
  · intro d mesh hd
    unfold Client.closeMeshDevice closeParentMesh at hd ⊢
    split at hd
    · dsimp only at hd
      rw [Function.update_apply] at hd
      split at hd
      · cases hd
      · exact hs.closeOptimizerSubmesh.fresh d mesh hd
    · exact hs.closeOptimizerSubmesh.fresh d mesh hd
  · rw [hworld]
    exact hs.pooled

-- What a call that asks for a mesh returns.
def Created (c : Client RT) (mesh_shape : List Nat) (fabric_config : FabricConfig)
    (created : Option DeviceHandle) : Prop :=
  ∀ d, created = some d →
    c.open_meshes d = some ⟨mesh_shape, fabric_config, none⟩ ∧ c.m_parent_mesh = some d

-- The next handle is that of the mesh that is opened.
theorem open_parent_spec (hs : Sound c) (hnone : c.m_parent_mesh = none)
    (h : c.open_parent env shape = (c', created)) :
    Sound c' ∧ Created c' shape (env.computeFabricConfig shape).globalConfig created ∧
      c'.world = c.world := by
  have hsub : c.m_optimizer_submesh = none := by
    cases hsub : c.m_optimizer_submesh with
    | none => rfl
    | some d =>
        obtain ⟨p, -, hp, -, -⟩ := hs.submesh d hsub
        rw [hnone] at hp
        cases hp
  unfold open_parent openMeshDevice at h
  by_cases hopens : env.opens = true
  · simp only [hopens, if_true] at h
    cases h
    refine ⟨⟨?_, ?_, ?_, hs.pooled⟩, ?_, rfl⟩
    · intro d hd
      cases hd
      exact ⟨_, Function.update_self _ _ _, rfl, rfl⟩
    · intro d hd
      dsimp only at hd
      rw [hsub] at hd
      cases hd
    · intro d mesh hd
      dsimp only at hd ⊢
      rw [Function.update_apply] at hd
      split at hd
      case isTrue heq =>
        rw [heq]
        exact Nat.lt_succ_self c.next_device
      case isFalse => exact Nat.lt_succ_of_lt (hs.fresh d mesh hd)
    · intro d hd
      cases hd
      exact ⟨Function.update_self _ _ _, rfl⟩
  · simp only [hopens] at h
    cases h
    refine ⟨⟨?_, hs.submesh, hs.fresh, hs.pooled⟩, ?_, rfl⟩
    · intro d hd
      dsimp only at hd
      rw [hnone] at hd
      cases hd
    · intro d hd
      cases hd

theorem getMeshShape_eq {mesh : OpenMesh} (h : c.open_meshes d = some mesh) :
    c.getMeshShape d = .ok mesh.shape := by
  unfold getMeshShape
  rw [h]
  rfl

-- The tensors are moved before the parent mesh is closed.
theorem getOrCreateMeshDevice_spec (hres : Residency runtime resides) (hs : Sound c)
    (h : c.getOrCreateMeshDevice runtime env shape = .ok (c', created)) :
    Keeps resides c c' ∧
      Created c' shape (env.computeFabricConfig shape).globalConfig created := by
  unfold getOrCreateMeshDevice at h
  cases hparent : c.m_parent_mesh with
  | none =>
      rw [hparent] at h
      cases hopened : c.open_parent env shape with
      | mk c₁ created₁ =>
          obtain ⟨hsound, hcreated, hworld⟩ := open_parent_spec hs hparent hopened
          dsimp only at h
          rw [hopened] at h
          cases h
          refine ⟨⟨hsound, fun hr t tensor ht => ?_⟩, hcreated⟩
          unfold Resident at hr
          rw [hparent] at hr
          rw [hworld] at ht
          exact (hr t tensor ht).of_none
  | some d =>
      obtain ⟨mesh, hopen, hroot, hfabric⟩ := hs.parent d hparent
      rw [hparent] at h
      dsimp only at h
      rw [getMeshShape_eq hopen] at h
      change (if _ then _ else _) = _ at h
      split at h
      case isTrue hreuse =>
        cases h
        refine ⟨.refl hs, fun d' hd' => ?_⟩
        cases hd'
        refine ⟨?_, hparent⟩
        have hconfig := Option.some.inj (hfabric.symm.trans hreuse.2)
        rw [hopen, ← hconfig, ← hroot, ← hreuse.1]
      case isFalse hreuse =>
        obtain ⟨world, hmoved, h⟩ := bind_eq_ok.mp h
        have hpool : ∀ t ∈ c.world.m_tensors, t ∈ env.pool_order c.world.m_tensors :=
          fun t ht => (env.mem_pool_order _ _).mpr ht
        obtain ⟨hpooled, hhost⟩ := move_tensors_to_host_host (hres.closed none) hs.pooled hpool
          hmoved
        have hclosed : Sound (Client.closeMeshDevice { c with world }) :=
          Sound.closeMeshDevice ⟨hs.parent, hs.submesh, hs.fresh, hpooled⟩
        obtain ⟨hnone, -, hworld⟩ := closeMeshDevice_none (c := { c with world })
        cases hopened : (Client.closeMeshDevice { c with world }).open_parent env shape with
        | mk c₁ created₁ =>
            obtain ⟨hsound, hcreated, hworld₁⟩ := open_parent_spec hclosed hnone hopened
            rw [← hparent, hopened] at h
            cases h
            refine ⟨⟨hsound, fun _ t tensor ht => ?_⟩, hcreated⟩
            rw [hworld₁, hworld] at ht
            exact (hhost t tensor ht).of_none

theorem Sound.drop_submesh (hs : Sound c) : Sound { c with m_optimizer_submesh := none } :=
  ⟨hs.parent, fun _ hd => (nomatch hd), hs.fresh, hs.pooled⟩

-- A new handle is not that of the parent mesh.
theorem Sound.add_submesh (hs : Sound c) {p : DeviceHandle} (hp : c.m_parent_mesh = some p)
    (fabric_config : FabricConfig) :
    Sound { c with
      m_optimizer_submesh := some c.next_device
      open_meshes := Function.update c.open_meshes c.next_device
        (some ⟨shape, fabric_config, some p⟩)
      next_device := c.next_device + 1 } where
  parent d hd := by
    obtain ⟨mesh, hmesh, hroot, hfabric⟩ := hs.parent d hd
    have hne : d ≠ c.next_device := Nat.ne_of_lt (hs.fresh d mesh hmesh)
    exact ⟨mesh, (Function.update_of_ne hne _ _).trans hmesh, hroot, hfabric⟩
  submesh d hd := by
    cases hd
    exact ⟨p, _, hp, Function.update_self _ _ _, rfl⟩
  fresh d mesh hd := by
    dsimp only at hd ⊢
    rw [Function.update_apply] at hd
    split at hd
    case isTrue heq =>
      rw [heq]
      exact Nat.lt_succ_self c.next_device
    case isFalse => exact Nat.lt_succ_of_lt (hs.fresh d mesh hd)
  pooled := hs.pooled

-- A submesh that has another shape belongs to no open mesh, and is not kept.
theorem getOrCreateOptimizerSubmesh_spec (hres : Residency runtime resides) (hs : Sound c)
    (h : c.getOrCreateOptimizerSubmesh runtime env shape = .ok (c', created)) :
    Keeps resides c c' := by
  obtain ⟨⟨c₁, parent_mesh⟩, hparent, h⟩ := bind_eq_ok.mp h
  obtain ⟨hkept, hcreated⟩ := getOrCreateMeshDevice_spec hres hs hparent
  cases parent_mesh with
  | none =>
      cases h
      exact hkept
  | some p =>
      have hlast : ∀ {reusable : Bool}, (if reusable then pure (c₁, c₁.m_optimizer_submesh)
          else if env.creates_submesh then do
            let mesh ← get (c₁.open_meshes p) Fault.use_after_free
            pure ({ c₁ with
              m_optimizer_submesh := some c₁.next_device
              open_meshes := Function.update c₁.open_meshes c₁.next_device
                (some ⟨shape, mesh.fabric_config, some p⟩)
              next_device := c₁.next_device + 1 }, some c₁.next_device)
          else pure ({ c₁ with m_optimizer_submesh := none }, none)) =
            Except.ok (c', created) → Keeps resides c c' := by
        intro reusable h
        split at h
        · cases h
          exact hkept
        · split at h
          · obtain ⟨mesh, hmesh, h⟩ := bind_eq_ok.mp h
            cases h
            exact ⟨hkept.sound.add_submesh (hcreated p rfl).2 mesh.fabric_config, hkept.resident⟩
          · cases h
            exact ⟨hkept.sound.drop_submesh, hkept.resident⟩
      dsimp only at h
      split at h
      · obtain ⟨optimizer_submesh_shape, -, h⟩ := bind_eq_ok.mp h
        obtain ⟨reusable, -, h⟩ := bind_eq_ok.mp h
        exact hlast h
      · obtain ⟨reusable, -, h⟩ := bind_eq_ok.mp h
        exact hlast h

theorem compile_spec (hres : Residency runtime resides) (hs : Sound c)
    {optimization_level : Int} {frontend pipeline : Bool}
    (h : c.compile runtime env optimization_level shape frontend pipeline = .ok c') :
    Keeps resides c c' := by
  -- the pipeline, after the submesh is closed
  have hlast : ∀ {c₁ : Client RT} (made : Bool) {current : Option (List Nat)},
      Keeps resides c c₁ → (if !made then pure c₁
        else if !pipeline then pure c₁.closeOptimizerSubmesh
        else if current.isSome && current != some shape then do
          let reopened ← c₁.closeOptimizerSubmesh.getOrCreateMeshDevice runtime env shape
          pure reopened.1
        else pure c₁.closeOptimizerSubmesh) = Except.ok c' → Keeps resides c c' := by
    intro c₁ made current h₁ h
    have h₂ := h₁.trans (closeOptimizerSubmesh_keeps h₁.sound)
    split at h
    · cases h
      exact h₁
    · split at h
      · cases h
        exact h₂
      · split at h
        · obtain ⟨⟨c₃, reopened⟩, hreopened, h⟩ := bind_eq_ok.mp h
          cases h
          exact h₂.trans (getOrCreateMeshDevice_spec hres h₂.sound hreopened).1
        · cases h
          exact h₂
  have hbody : ∀ {current : Option (List Nat)}, (if !frontend then pure c
      else if 1 ≤ optimization_level then do
        let made ← c.getOrCreateOptimizerSubmesh runtime env shape
        if !made.2.isSome then pure made.1
        else if !pipeline then pure made.1.closeOptimizerSubmesh
        else if current.isSome && current != some shape then do
          let reopened ← made.1.closeOptimizerSubmesh.getOrCreateMeshDevice runtime env shape
          pure reopened.1
        else pure made.1.closeOptimizerSubmesh
      else if !pipeline then pure c.closeOptimizerSubmesh
      else if current.isSome && current != some shape then do
        let reopened ← c.closeOptimizerSubmesh.getOrCreateMeshDevice runtime env shape
        pure reopened.1
      else pure c.closeOptimizerSubmesh) = Except.ok c' → Keeps resides c c' := by
    intro current h
    split at h
    · cases h
      exact .refl hs
    · split at h
      · obtain ⟨⟨c₁, submesh⟩, hsubmesh, h⟩ := bind_eq_ok.mp h
        exact hlast submesh.isSome (getOrCreateOptimizerSubmesh_spec hres hs hsubmesh) h
      · exact hlast true (.refl hs) h
  unfold compile at h
  dsimp only at h
  split at h
  · obtain ⟨current, -, h⟩ := bind_eq_ok.mp h
    exact hbody h
  · obtain ⟨current, -, h⟩ := bind_eq_ok.mp h
    exact hbody h

theorem executable_mesh_spec (hres : Residency runtime resides) (hs : Sound c)
    {program : Program RT} {device_ids : Finset Int} {execute_device : Option Int}
    (h : c.executable_mesh runtime env program device_ids execute_device = .ok (c', created)) :
    Keeps resides c c' ∧ ∀ d, created = some d → c'.m_parent_mesh = some d := by
  unfold executable_mesh at h
  dsimp only at h
  split at h
  · cases h
    exact ⟨.refl hs, fun d hd => by cases hd⟩
  · split at h
    · obtain ⟨hkept, hcreated⟩ := getOrCreateMeshDevice_spec hres hs h
      exact ⟨hkept, fun d hd => (hcreated d hd).2⟩
    · cases h
      exact ⟨.refl hs, fun d hd => by cases hd⟩

theorem closed_true (runtime : Runtime RT) : Closed runtime (fun _ => True) :=
  ⟨fun _ _ => trivial, fun _ _ _ => trivial, fun _ _ _ => trivial⟩

-- The prepared tensors are laid out for the parent mesh.
theorem prepare_spec (hres : Residency runtime resides) (hs : Sound c)
    {program : Program RT} {device_ids : Finset Int} {execute_device : Option Int}
    {args : List (Argument L)} {prepared : Option (DeviceHandle × List RT)}
    (h : c.prepare runtime env program device_ids execute_device args = .ok (c', prepared)) :
    Keeps resides c c' ∧
      ∀ d input_tensors, prepared = some (d, input_tensors) → c'.m_parent_mesh = some d := by
  unfold prepare at h
  split at h
  · cases h
    exact ⟨.refl hs, fun d ins hd => by cases hd⟩
  · obtain ⟨⟨c₁, created⟩, hmesh, h⟩ := bind_eq_ok.mp h
    obtain ⟨hkept, hcreated⟩ := executable_mesh_spec hres hs hmesh
    cases created with
    | none =>
        cases h
        exact ⟨hkept, fun d ins hd => by cases hd⟩
    | some d =>
        obtain ⟨⟨world, status, ins⟩, hins, h⟩ := bind_eq_ok.mp h
        have hparent := hcreated d rfl
        have hworld : Keeps resides c₁ { c₁ with world } := by
          refine .world hkept.sound ?_ fun hr => ?_
          · exact getInputRuntimeTensors_evolves (closed_true _) (fun _ _ _ => trivial)
              (fun _ _ _ => trivial) hins
          · refine getInputRuntimeTensors_evolves (hres.closed _) (fun rt layout retain => ?_)
              hr hins
            unfold On
            rw [hparent]
            exact hres.toLayout d rt layout retain
        dsimp only at h
        split at h
        · cases h
          exact ⟨hkept.trans hworld, fun d ins hd => by cases hd⟩
        · cases h
          refine ⟨hkept.trans hworld, fun d ins hd => ?_⟩
          cases hd
          exact hparent

-- The submission gives tensors on the host or on the device.
def Local (resides : RT → Option DeviceHandle) (program : Program RT) : Prop :=
  ∀ d input_tensors output_tensors, program.submit d input_tensors = some output_tensors →
    ∀ rt ∈ output_tensors, On resides (some d) rt

-- No tensor is on a device when a submission fails.
def SubmitsSafely (runtime : MeshRuntime RT L D) (resides : RT → Option DeviceHandle)
    (c : Client RT) (env : Environment) (program : Program RT) (device_ids : Finset Int)
    (execute_device : Option Int) (args : List (Argument L)) : Prop :=
  ∀ c' d input_tensors,
    c.prepare runtime env program device_ids execute_device args =
        .ok (c', some (d, input_tensors)) →
      program.submit d input_tensors = none → c'.world.All (On resides none)

theorem execute_spec (hres : Residency runtime resides) (hs : Sound c)
    {program : Program RT} {device_ids : Finset Int} {execute_device : Option Int}
    {args : List (Argument L)} {output_lists : List (List BufferId)}
    (hlocal : Local resides program)
    (h : c.execute runtime env program device_ids execute_device args output_lists = .ok c') :
    Sound c' ∧ (SubmitsSafely runtime resides c env program device_ids execute_device args →
      Resident resides c → Resident resides c') := by
  obtain ⟨⟨c₁, prepared⟩, hprepared, h⟩ := bind_eq_ok.mp h
  obtain ⟨hkept, hparent⟩ := prepare_spec hres hs hprepared
  cases prepared with
  | none =>
      cases h
      exact ⟨hkept.sound, fun _ => hkept.resident⟩
  | some x =>
      obtain ⟨d, ins⟩ := x
      dsimp only at h
      cases hsubmit : program.submit d ins with
      | none =>
          rw [hsubmit] at h
          cases h
          refine ⟨hkept.sound.closeMeshDevice, fun hsafe _ t tensor ht => ?_⟩
          rw [closeMeshDevice_none.2.2] at ht
          exact (hsafe c₁ d ins hprepared hsubmit t tensor ht).of_none
      | some outs =>
          rw [hsubmit] at h
          dsimp only at h
          split at h
          · cases h
            exact ⟨hkept.sound, fun _ => hkept.resident⟩
          · obtain ⟨world, hworld, h⟩ := bind_eq_ok.mp h
            cases h
            have hfilled : Keeps resides c₁ { c₁ with world } := by
              refine .world hkept.sound ?_ fun _ => ?_
              · exact fillPJRTOutputLists_evolves (closed_true _) (fun _ _ => trivial) hworld
              · refine fillPJRTOutputLists_evolves (hres.closed _) (fun x hx => ?_) hworld
                rw [hparent d ins rfl]
                exact hlocal d ins outs hsubmit x.1 (List.of_mem_zip hx).1
            exact ⟨(hkept.trans hfilled).sound, fun _ => (hkept.trans hfilled).resident⟩

-- A call whose submission gives tensors of its own device, and one that fails safely too.
def Valid (resides : RT → Option DeviceHandle) (_c : Client RT) : ClientCall RT L D → Prop
  | .execute _ program _ _ _ _ => Local resides program
  | _ => True

def Safe (runtime : MeshRuntime RT L D) (resides : RT → Option DeviceHandle) (c : Client RT) :
    ClientCall RT L D → Prop
  | .execute env program device_ids execute_device args _ => Local resides program ∧
      SubmitsSafely runtime resides c env program device_ids execute_device args
  | _ => True

theorem Safe.valid {call : ClientCall RT L D} (h : Safe runtime resides c call) :
    Valid resides c call := by
  cases call with
  | execute => exact h.1
  | _ => exact h

theorem run_spec (hres : Residency runtime resides) (hs : Sound c) {call : ClientCall RT L D}
    (hvalid : Valid resides c call) (h : c.run runtime call = .ok c') :
    Sound c' ∧ (Safe runtime resides c call → Resident resides c → Resident resides c') := by
  have hkept : Keeps resides c c' →
      Sound c' ∧ (Safe runtime resides c call → Resident resides c → Resident resides c') :=
    fun hk => ⟨hk.sound, fun _ => hk.resident⟩
  have htrue : ∀ {α : Type} (a : α), (fun _ : α => True) a := fun _ => trivial
  cases call with
  | compile env optimization_level mesh_shape frontend pipeline =>
      exact hkept (compile_spec hres hs h)
  | execute env program device_ids execute_device args output_lists =>
      obtain ⟨hsound, hresident⟩ := execute_spec hres hs hvalid h
      exact ⟨hsound, fun hsafe => hresident hsafe.2⟩
  | closeOptimizerSubmesh =>
      cases h
      exact hkept (closeOptimizerSubmesh_keeps hs)
  | getOrCreateMeshDevice env mesh_shape =>
      obtain ⟨⟨c₁, created⟩, hcreated, h⟩ := bind_eq_ok.mp h
      cases h
      exact hkept (getOrCreateMeshDevice_spec hres hs hcreated).1
  | copyFromHost b data =>
      obtain ⟨world, hworld, h⟩ := bind_eq_ok.mp h
      cases h
      refine hkept (.world hs ?_ fun _ => ?_)
      · exact (create_buffer_evolves c.world b).trans
          (copyFromHost_evolves (closed_true _) trivial hworld)
      · exact (create_buffer_evolves c.world b).trans (copyFromHost_evolves
          (hres.closed _) (.inl (hres.createOwnedHostTensor data)) hworld)
  | copyToHost b =>
      obtain ⟨⟨world, data⟩, hworld, h⟩ := bind_eq_ok.mp h
      cases h
      refine hkept (.world hs ?_ fun _ => ?_)
      · exact copyToHost_evolves (closed_true _) hworld
      · exact copyToHost_evolves (hres.closed _) hworld
  | copyFromBuffer b src_buffer =>
      obtain ⟨world, hworld, h⟩ := bind_eq_ok.mp h
      cases h
      refine hkept (.world hs ?_ fun _ => ?_)
      · exact (create_buffer_evolves c.world b).trans
          (copyFromBuffer_evolves (closed_true _) htrue hworld)
      · exact (create_buffer_evolves c.world b).trans (copyFromBuffer_evolves
          (hres.closed _) (fun data => .inl (hres.createOwnedHostTensor data)) hworld)
  | destroy b =>
      obtain ⟨world, hworld, h⟩ := bind_eq_ok.mp h
      cases h
      exact hkept (.world hs (destroy_buffer_evolves hworld)
        fun _ => destroy_buffer_evolves hworld)

theorem reachable_sound (hres : Residency runtime resides)
    (h : Run.Reachable (step runtime) (Valid resides) init c) : Sound c :=
  h.invariant Sound init_sound fun _ _ _ hs hvalid hstep =>
    (run_spec hres hs hvalid (eq_ok_of_toOption hstep)).1

theorem reachable_resident (hres : Residency runtime resides)
    (h : Run.Reachable (step runtime) (Safe runtime resides) init c) : Resident resides c := by
  refine (h.invariant (fun c => Sound c ∧ Resident resides c) ⟨init_sound, init_resident⟩
    fun s call s' hs hsafe hstep => ?_).2
  obtain ⟨hsound, hresident⟩ := run_spec hres hs.1 hsafe.valid (eq_ok_of_toOption hstep)
  exact ⟨hsound, hresident hsafe hs.2⟩

-- In every run, the mesh that is returned is open with its shape and its fabric configuration,
-- and the submesh is one of the open parent mesh. While submissions fail safely, every tensor
-- resides on the host or on the open parent mesh.
theorem mesh_lifecycle (hres : Residency runtime resides) :
    (∀ c, Run.Reachable (step runtime) (Valid resides) init c →
      (∀ env shape c' d, c.getOrCreateMeshDevice runtime env shape = .ok (c', some d) →
        c'.open_meshes d = some ⟨shape, (env.computeFabricConfig shape).globalConfig, none⟩) ∧
      (∀ d, c.m_optimizer_submesh = some d → ∃ p parent mesh, c.m_parent_mesh = some p ∧
        c.open_meshes p = some parent ∧ c.open_meshes d = some mesh ∧ mesh.parent = some p)) ∧
    (∀ c, Run.Reachable (step runtime) (Safe runtime resides) init c →
      ∀ t tensor d, c.world.tensors t = some tensor → resides tensor.m_runtime_tensor = some d →
        c.m_parent_mesh = some d ∧ ∃ mesh, c.open_meshes d = some mesh) := by
  constructor
  · intro c hc
    have hs := reachable_sound hres hc
    constructor
    · intro env shape c' d hcreated
      exact ((getOrCreateMeshDevice_spec hres hs hcreated).2 d rfl).1
    · intro d hd
      obtain ⟨p, mesh, hp, hmesh, hparent⟩ := hs.submesh d hd
      obtain ⟨parent, hopen, -, -⟩ := hs.parent p hp
      exact ⟨p, parent, mesh, hp, hopen, hmesh, hparent⟩
  · intro c hc t tensor d ht hd
    have hs := reachable_sound hres (hc.mono fun _ _ hsafe => hsafe.valid)
    have hparent : c.m_parent_mesh = some d := by
      cases reachable_resident hres hc t tensor ht with
      | inl hnone =>
          rw [hd] at hnone
          cases hnone
      | inr hon => exact hon.symm.trans hd
    obtain ⟨mesh, hopen, -, -⟩ := hs.parent d hparent
    exact ⟨hparent, mesh, hopen⟩

-- Tensors that are only the place where they are.
def places : MeshRuntime (Option DeviceHandle) Unit Unit where
  toHost _ := [none]
  setTensorRetain rt _ := rt
  createMultiDeviceHostTensor _ _ _ := none
  hasLayout rt _ := rt.isSome
  toLayout d _ _ _ := some d
  getTensorRetain _ := true
  isTensorAllocated _ := true
  memcpy _ := ()
  createOwnedHostTensor _ := none

theorem places_residency : Residency places id where
  setTensorRetain _ _ := rfl
  toHost _ _ hx := List.mem_singleton.mp hx
  createMultiDeviceHostTensor _ _ _ := rfl
  toLayout _ _ _ _ := .inr rfl
  createOwnedHostTensor _ := rfl

def single_device : Environment where
  distributed := false
  using_dualt3k := false
  computeMeshFabricConfig _ := ⟨.DISABLED, []⟩
  opens := true
  creates_submesh := true
  pool_order s := s.sort (· ≤ ·)
  mem_pool_order s _ := s.mem_sort (· ≤ ·)
  nodup_pool_order s := s.sort_nodup (· ≤ ·)

-- A program of one input on one device, and its call on buffer 0.
def call_unary (submit : DeviceHandle → List (Option DeviceHandle) →
    Option (List (Option DeviceHandle))) (output_lists : List (List BufferId)) :
    ClientCall (Option DeviceHandle) Unit Unit :=
  .execute single_device ⟨1, 1, [1, 1], submit⟩ {0} none [⟨[0], ⟨.Identity, []⟩, ()⟩] output_lists

theorem places_lifecycle : ∃ c,
    Run.Reachable (step places) (Safe places id) init c ∧
      (c.world.tensors 0).map (·.m_runtime_tensor) = some (some 0) ∧
      c.m_parent_mesh = some 0 ∧ ∃ mesh, c.open_meshes 0 = some mesh := by
  have hsafe : ∀ c, Safe places id c (call_unary (fun d _ => some [some d]) [[1]]) := by
    intro c
    constructor
    · intro d ins outs houts rt hrt
      cases houts
      exact .inr (List.mem_singleton.mp hrt)
    · intro c' d ins _ hfailed
      cases hfailed
  have hreach : Run.Reachable (step places) (Safe places id) init _ :=
    .next (.next .start (a := .copyFromHost 0 ()) trivial rfl) (hsafe _) rfl
  exact ⟨_, hreach, rfl, (mesh_lifecycle places_residency).2 _ hreach 0 _ 0 rfl rfl⟩

-- The tensor of a buffer stays on the mesh that a failed submission closes.
theorem failed_submission_strands : ∃ c b t tensor d,
    Run.Reachable (step places) (Valid id) init c ∧ c.world.ref b = some t ∧
      c.world.tensors t = some tensor ∧ id tensor.m_runtime_tensor = some d ∧
      c.open_meshes d = none := by
  have hvalid : Valid id init (call_unary (fun _ _ => none) []) := fun _ _ _ h => (nomatch h)
  have hreach : Run.Reachable (step places) (Valid id) init _ :=
    .next (.next .start (a := .copyFromHost 0 ()) trivial rfl)
      (a := call_unary (fun _ _ => none) []) hvalid rfl
  exact ⟨_, 0, 0, _, 0, hreach, rfl, rfl, rfl, rfl⟩

end TTXla.PJRT.Client
