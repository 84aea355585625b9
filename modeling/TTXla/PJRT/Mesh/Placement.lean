import TTXla.PJRT.Mesh.Lifecycle

-- The devices of the argument buffers that an execution checks before it gets its mesh.
namespace TTXla.PJRT

open Excepts

-- The buffers of the arguments, for each device of the call.
structure ArgumentLists where
  num_args : Nat
  argument_lists : List (List BufferId)
  h_args : ∀ buffers ∈ argument_lists, buffers.length = num_args

-- `m_addressable_devices` holds the global ids of the devices.
structure LoadedExecutableInstance (RT : Type) where
  program : Program RT
  m_addressable_devices : List Int

namespace LoadedExecutableInstance

variable {RT L D : Type} (runtime : MeshRuntime RT L D) (env : Environment)
  (e : LoadedExecutableInstance RT) (c : Client RT) (getGlobalDeviceId : BufferId → Int)
  (args : ArgumentLists) (execute_device : Option Int)

-- No list has a first buffer when there are no arguments.
def getDeviceIds : Except Fault (Finset Int) := do
  let device_ids := (args.argument_lists.filterMap fun buffers =>
    buffers.head?.map getGlobalDeviceId).toFinset
  if device_ids.card = 0 then
    let front ← get e.m_addressable_devices.head? (.fatal "No addressable devices available")
    return {front}
  else return device_ids

-- A call is rejected when no device is returned and the runtime does not throw.
def getOrCreateMeshDevice : Except Fault (Client RT × Option DeviceHandle) := do
  let device_ids ← e.getDeviceIds getGlobalDeviceId args
  c.executable_mesh runtime env e.program device_ids execute_device

-- Every buffer of an argument is on the addressable device of its position.
def CorrectlyPlaced : Prop :=
  ∀ (k : Nat) buffers, args.argument_lists[k]? = some buffers → ∀ b ∈ buffers,
    e.m_addressable_devices[k]? = some (getGlobalDeviceId b)

-- The devices of the buffers of the first argument; the first device when there is none.
def first_devices : List Int :=
  let devices := args.argument_lists.filterMap fun buffers => buffers.head?.map getGlobalDeviceId
  if devices = [] then e.m_addressable_devices.take 1 else devices

-- What is checked: the number of the devices, and the device of the execution.
structure FirstPlaced : Prop where
  count : (e.first_devices getGlobalDeviceId args).toFinset.card =
    e.program.devices_mesh_shape.foldl (fun product dim => product * dim % 2 ^ 32) 1
  execute : ∀ id, execute_device = some id →
    ∀ device ∈ e.first_devices getGlobalDeviceId args, device = id

variable {runtime env e c getGlobalDeviceId args execute_device}

theorem getDeviceIds_eq {device_ids : Finset Int}
    (h : e.getDeviceIds getGlobalDeviceId args = .ok device_ids) :
    device_ids = (e.first_devices getGlobalDeviceId args).toFinset := by
  unfold getDeviceIds at h
  unfold first_devices
  dsimp only at h ⊢
  generalize args.argument_lists.filterMap
    (fun buffers => buffers.head?.map getGlobalDeviceId) = devices at h ⊢
  cases devices with
  | nil =>
      rw [List.toFinset_nil, if_pos Finset.card_empty] at h
      obtain ⟨front, hfront, h⟩ := bind_eq_ok.mp h
      cases h
      obtain ⟨rest, hdevices⟩ := List.head?_eq_some_iff.mp (get_eq_ok.mp hfront)
      rw [if_pos rfl, hdevices]
      rfl
  | cons device devices =>
      have hcard : (device :: devices).toFinset.card ≠ 0 := by simp
      rw [if_neg hcard] at h
      cases h
      rw [if_neg (List.cons_ne_nil _ _)]

-- As many buffers as there are devices in the mesh are on devices of their own.
theorem FirstPlaced.nodup (h : e.FirstPlaced getGlobalDeviceId args execute_device)
    (hlength : (e.first_devices getGlobalDeviceId args).length =
      e.program.devices_mesh_shape.foldl (fun product dim => product * dim % 2 ^ 32) 1) :
    (e.first_devices getGlobalDeviceId args).Nodup := by
  have hcount := h.count
  rw [← hlength, List.card_toFinset] at hcount
  rw [← List.dedup_eq_self]
  exact (List.dedup_sublist _).eq_of_length hcount

theorem executable_mesh_checks {device_ids : Finset Int} {c' : Client RT}
    {created : Option DeviceHandle}
    (h : c.executable_mesh runtime env e.program device_ids execute_device = .ok (c', created)) :
    (device_ids.card =
        e.program.devices_mesh_shape.foldl (fun product dim => product * dim % 2 ^ 32) 1 ∧
      ∀ id, execute_device = some id → device_ids = {id}) ∧
        c.getOrCreateMeshDevice runtime env e.program.devices_mesh_shape = .ok (c', created) ∨
      c' = c ∧ created = none := by
  unfold Client.executable_mesh at h
  dsimp only at h
  split at h
  · cases h
    exact .inr ⟨rfl, rfl⟩
  · split at h
    · rename_i hcard hexecute
      refine .inl ⟨⟨not_not.mp hcard, fun id hid => ?_⟩, h⟩
      subst hid
      simpa using hexecute
    · cases h
      exact .inr ⟨rfl, rfl⟩

-- With a runtime that does not throw, the client has a mesh after the call.
theorem isSome_of_opens {mesh_shape : List Nat} {c' : Client RT} {created : Option DeviceHandle}
    (hopens : env.opens = true)
    (h : c.getOrCreateMeshDevice runtime env mesh_shape = .ok (c', created)) :
    created.isSome := by
  have hopen : ∀ c : Client RT, c.open_parent env mesh_shape = (c', created) →
      created.isSome := fun c hc => by
    rw [Client.open_parent, Client.openMeshDevice, if_pos hopens] at hc
    cases hc
    rfl
  unfold Client.getOrCreateMeshDevice at h
  split at h
  · exact hopen c (Except.ok.inj h)
  · obtain ⟨parent_mesh_shape, -, h⟩ := bind_eq_ok.mp h
    dsimp only at h
    split at h
    · cases h
      rfl
    · obtain ⟨world, -, h⟩ := bind_eq_ok.mp h
      exact hopen _ (Except.ok.inj h)

-- A call that gets a device has the buffers of the first argument on as many devices as the mesh
-- has, and a call that is rejected changes nothing.
theorem first_placed_of_created {c' : Client RT} {created : Option DeviceHandle}
    (h : e.getOrCreateMeshDevice runtime env c getGlobalDeviceId args execute_device =
      .ok (c', created)) :
    (created.isSome → e.FirstPlaced getGlobalDeviceId args execute_device) ∧
      (env.opens = true → created = none → c' = c) := by
  obtain ⟨device_ids, hids, h⟩ := bind_eq_ok.mp h
  have hids := getDeviceIds_eq hids
  obtain ⟨⟨hcard, hexecute⟩, hcreate⟩ | ⟨rfl, rfl⟩ := executable_mesh_checks h
  · constructor
    · intro _
      refine ⟨hids ▸ hcard, fun id hid device hdevice => ?_⟩
      have hmem : device ∈ device_ids := hids ▸ List.mem_toFinset.mpr hdevice
      rw [hexecute id hid] at hmem
      exact Finset.mem_singleton.mp hmem
    · intro hopens hnone
      have hsome := isSome_of_opens hopens hcreate
      rw [hnone] at hsome
      cases hsome
  · exact ⟨fun hsome => (by cases hsome), fun _ _ => rfl⟩

-- A program on two devices, and its call with one argument.
def pair_executable : LoadedExecutableInstance (Option DeviceHandle) :=
  ⟨⟨1, 2, [1, 2], fun d _ => some [some d]⟩, [0, 1]⟩

def pair_arguments (first second : BufferId) : ArgumentLists := ⟨1, [[first], [second]], by simp⟩

theorem pair_placed :
    pair_executable.FirstPlaced (fun b => b) (pair_arguments 0 1) none := by
  have hcreated : pair_executable.getOrCreateMeshDevice Client.places Client.single_device
      Client.init (fun b => b) (pair_arguments 0 1) none =
        .ok (Client.init.open_parent Client.single_device [1, 2]) := rfl
  exact (first_placed_of_created hcreated).1 rfl

-- The buffers of an argument on each other's devices are not rejected.
theorem swapped_accepted : ¬∀ (e : LoadedExecutableInstance (Option DeviceHandle))
    (getGlobalDeviceId : BufferId → Int) (args : ArgumentLists) (execute_device : Option Int)
    (env : Environment) (c c' : Client (Option DeviceHandle)) (d : DeviceHandle),
      e.getOrCreateMeshDevice Client.places env c getGlobalDeviceId args execute_device =
        .ok (c', some d) → e.CorrectlyPlaced getGlobalDeviceId args := by
  intro h
  have hplaced := h pair_executable (fun b => b) (pair_arguments 1 0) none Client.single_device
    Client.init _ 0 rfl 0 [1] rfl 1 List.mem_cons_self
  revert hplaced
  decide

end LoadedExecutableInstance

end TTXla.PJRT
