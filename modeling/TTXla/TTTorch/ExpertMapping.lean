import TTXla.Lib.Excepts
import TTXla.Lib.Tensor
import Mathlib.Order.Interval.Finset.Nat

-- The mapping of the experts to the devices.
namespace TTXla.TTTorch

open Excepts

inductive MappingError where
  | ZeroDivisionError
  | IndexError
  | AssertionError (message : String)
deriving DecidableEq

-- The device of an expert in a round of the loop.
def device_id (mesh_shape : Option (Nat × Nat)) (experts_per_device i : Nat) :
    Except MappingError Nat :=
  match mesh_shape with
  | some (rows, cols) =>
      if rows = 0 then .error .ZeroDivisionError else .ok (i % rows * cols + i / rows)
  | none =>
      if experts_per_device = 0 then .error .ZeroDivisionError else .ok (i / experts_per_device)

-- `mapping[0, 0, i, device_id] = 1` for the expert of a round.
def place_expert (mesh_shape : Option (Nat × Nat)) (num_devices experts_per_device : Nat)
    (mapping : Tensor Nat) (i : Nat) : Except MappingError (Tensor Nat) := do
  let device_id ← device_id mesh_shape experts_per_device i
  ensure (device_id < num_devices) .IndexError
  return mapping.set [0, 0, i, device_id] 1

def build_expert_mapping (num_experts num_devices : Nat) (mesh_shape : Option (Nat × Nat)) :
    Except MappingError (Tensor Nat) := do
  ensure (num_devices ≠ 0) .ZeroDivisionError
  ensure (num_experts % num_devices = 0) (.AssertionError ("num_experts (" ++
    toString num_experts ++ ") must be divisible by num_devices (" ++
      toString num_devices ++ ")"))
  let mapping := Tensor.zeros [1, 1, num_experts, num_devices]
  let experts_per_device := num_experts / num_devices
  (List.range num_experts).foldlM (place_expert mesh_shape num_devices experts_per_device) mapping

-- `E // num_devices` of `moe_expert_token_remap`, where `num_devices` is the last dimension of the
-- mapping.
def E_local (E : Nat) (expert_mapping : Tensor Nat) : Nat :=
  E / Tensor.last expert_mapping.shape

namespace ExpertMapping

def experts_of (num_experts : Nat) (mapping : Tensor Nat) (d : Nat) : Finset Nat :=
  (Finset.range num_experts).filter fun i => mapping.get [0, 0, i, d] = 1

def devices_of (num_devices : Nat) (mapping : Tensor Nat) (i : Nat) : Finset Nat :=
  (Finset.range num_devices).filter fun d => mapping.get [0, 0, i, d] = 1

structure Balanced (num_experts num_devices : Nat) (mapping : Tensor Nat) : Prop where
  shape_eq : mapping.shape = [1, 1, num_experts, num_devices]
  binary : ∀ i < num_experts, ∀ d < num_devices,
    mapping.get [0, 0, i, d] = 0 ∨ mapping.get [0, 0, i, d] = 1
  row : ∀ i < num_experts, (devices_of num_devices mapping i).card = 1
  column : ∀ d < num_devices, (experts_of num_experts mapping d).card = num_experts / num_devices
  local_count : ∀ d < num_devices,
    (experts_of num_experts mapping d).card = E_local num_experts mapping

variable {mesh_shape : Option (Nat × Nat)} {num_experts num_devices experts_per_device n : Nat}
  {mapping mapping' : Tensor Nat}

theorem place_expert_eq_ok {i : Nat} :
    place_expert mesh_shape num_devices experts_per_device mapping i = .ok mapping' ↔
      ∃ d, device_id mesh_shape experts_per_device i = .ok d ∧ d < num_devices ∧
        mapping.set [0, 0, i, d] 1 = mapping' := by
  unfold place_expert
  constructor
  · intro h
    obtain ⟨d, hd, h⟩ := bind_eq_ok.mp h
    obtain ⟨_, hlt, h⟩ := bind_eq_ok.mp h
    cases h
    exact ⟨d, hd, ensure_eq_ok.mp hlt, rfl⟩
  · intro h
    obtain ⟨d, hd, hlt, rfl⟩ := h
    rw [hd]
    change (ensure _ _ >>= _) = _
    rw [ensure_of hlt]
    rfl

-- The loop succeeds when every expert has a device, and marks that device.
theorem place_experts_ok {f : Nat → Nat}
    (hid : ∀ i < n, device_id mesh_shape experts_per_device i = .ok (f i))
    (hlt : ∀ i < n, f i < num_devices) (shape : List Nat) :
    ∃ mapping, (List.range n).foldlM (place_expert mesh_shape num_devices experts_per_device)
        (Tensor.zeros shape) = .ok mapping ∧ mapping.shape = shape ∧
      ∀ i d, mapping.get [0, 0, i, d] = if i < n ∧ d = f i then 1 else 0 := by
  induction n with
  | zero => exact ⟨Tensor.zeros shape, rfl, rfl, fun i d => (if_neg (by omega)).symm⟩
  | succ n ih =>
      obtain ⟨mapping, hfold, hshape, hget⟩ := ih (fun i hi => hid i (by omega))
        (fun i hi => hlt i (by omega))
      refine ⟨mapping.set [0, 0, n, f n] 1, ?_, hshape, fun i d => ?_⟩
      · rw [List.range_succ, List.foldlM_append, hfold]
        change (place_expert _ _ _ _ _ >>= _) = _
        rw [place_expert_eq_ok.mpr ⟨f n, hid n (by omega), hlt n (by omega), rfl⟩]
        rfl
      · by_cases hnew : i = n ∧ d = f n
        · obtain ⟨rfl, rfl⟩ := hnew
          rw [if_pos ⟨by omega, rfl⟩]
          exact Function.update_self _ _ _
        · have hne : [0, 0, i, d] ≠ [0, 0, n, f n] := by simpa using hnew
          refine (Function.update_of_ne hne _ _).trans ?_
          rw [hget]
          by_cases hi : i = n
          · subst hi
            rw [if_neg (by omega), if_neg (fun h => hnew ⟨rfl, h.2⟩)]
          · have hiff : i < n + 1 ↔ i < n := by omega
            simp only [hiff]

-- When the loop succeeds, the devices are in range.
theorem device_lt_of_ok (h : (List.range n).foldlM
    (place_expert mesh_shape num_devices experts_per_device) mapping = .ok mapping') :
    ∀ i < n, ∀ d, device_id mesh_shape experts_per_device i = .ok d → d < num_devices := by
  induction n generalizing mapping' with
  | zero => exact fun i hi => absurd hi (Nat.not_lt_zero i)
  | succ n ih =>
      rw [List.range_succ, List.foldlM_append] at h
      obtain ⟨before, hbefore, h⟩ := bind_eq_ok.mp h
      rw [List.foldlM_cons] at h
      obtain ⟨last, hlast, -⟩ := bind_eq_ok.mp h
      obtain ⟨d', hd', hlt, -⟩ := place_expert_eq_ok.mp hlast
      intro i hi d hd
      by_cases hn : i = n
      · subst hn
        rw [hd'] at hd
        cases hd
        exact hlt
      · exact ih hbefore i (by omega) d hd

-- A mapping that marks one device of each expert is balanced when the devices are.
theorem balanced_of_marks {f : Nat → Nat}
    (hshape : mapping.shape = [1, 1, num_experts, num_devices])
    (hlt : ∀ i < num_experts, f i < num_devices)
    (hget : ∀ i d, mapping.get [0, 0, i, d] = if i < num_experts ∧ d = f i then 1 else 0)
    (hcolumn : ∀ d < num_devices, ((Finset.range num_experts).filter fun i => d = f i).card =
      num_experts / num_devices) : Balanced num_experts num_devices mapping := by
  have hmarked : ∀ i < num_experts, ∀ d, mapping.get [0, 0, i, d] = 1 ↔ d = f i := by
    intro i hi d
    rw [hget]
    simp [hi]
  have hexperts : ∀ d < num_devices,
      (experts_of num_experts mapping d).card = num_experts / num_devices := by
    intro d hd
    rw [← hcolumn d hd, experts_of]
    refine congrArg _ (Finset.filter_congr fun i hi => ?_)
    exact hmarked i (Finset.mem_range.mp hi) d
  refine ⟨hshape, fun i _ d _ => ?_, fun i hi => ?_, hexperts, fun d hd => ?_⟩
  · rw [hget]
    split
    · exact .inr rfl
    · exact .inl rfl
  · rw [Finset.card_eq_one]
    refine ⟨f i, Finset.ext fun d => ?_⟩
    rw [devices_of, Finset.mem_filter, Finset.mem_range, Finset.mem_singleton, hmarked i hi]
    constructor
    · intro h
      exact h.2
    · intro h
      exact ⟨h ▸ hlt i hi, h⟩
  · rw [hexperts d hd, E_local, hshape]
    rfl

-- Consecutive experts fill the devices.
theorem card_div_eq {d : Nat} (hpos : 0 < n) (hd : d < num_devices) :
    ((Finset.range (num_devices * n)).filter fun i => d = i / n).card = n := by
  have hfiber : (Finset.range (num_devices * n)).filter (fun i => d = i / n) =
      Finset.Ico (d * n) ((d + 1) * n) := by
    ext i
    rw [Finset.mem_filter, Finset.mem_range, Finset.mem_Ico, eq_comm, Nat.div_eq_iff hpos]
    have hbound : (d + 1) * n ≤ num_devices * n := Nat.mul_le_mul_right n hd
    have hstep : (d + 1) * n = d * n + n := Nat.succ_mul d n
    omega
  rw [hfiber, Nat.card_Ico, Nat.succ_mul, Nat.add_sub_cancel_left]

-- One expert in each row and column of a mesh.
theorem card_transpose_eq {rows cols d : Nat} (hd : d < rows * cols) :
    ((Finset.range (rows * cols)).filter fun i => d = i % rows * cols + i / rows).card = 1 := by
  have hrows : 0 < rows := Nat.pos_of_ne_zero fun h => by simp [h] at hd
  have hcols : 0 < cols := Nat.pos_of_ne_zero fun h => by simp [h] at hd
  have hrow : d / cols < rows := Nat.div_lt_of_lt_mul (by rwa [Nat.mul_comm])
  have hcol := Nat.mod_lt d hcols
  rw [Finset.card_eq_one]
  refine ⟨d % cols * rows + d / cols, Finset.ext fun i => ?_⟩
  rw [Finset.mem_filter, Finset.mem_range, Finset.mem_singleton]
  constructor
  · intro h
    have hi : i / rows < cols := Nat.div_lt_of_lt_mul h.1
    have hdiv : d / cols = i % rows := by
      rw [h.2, Nat.mul_comm, Nat.mul_add_div hcols, Nat.div_eq_of_lt hi, Nat.add_zero]
    have hmod : d % cols = i / rows := by
      rw [h.2, Nat.mul_comm, Nat.mul_add_mod, Nat.mod_eq_of_lt hi]
    rw [hdiv, hmod, Nat.mul_comm]
    exact (Nat.div_add_mod i rows).symm
  · intro h
    subst h
    constructor
    · calc d % cols * rows + d / cols < d % cols * rows + rows := by omega
        _ = (d % cols + 1) * rows := by ring
        _ ≤ cols * rows := Nat.mul_le_mul_right _ hcol
        _ = rows * cols := Nat.mul_comm _ _
    · rw [Nat.mul_comm (d % cols), Nat.mul_add_mod, Nat.mod_eq_of_lt hrow,
        Nat.mul_add_div hrows, Nat.div_eq_of_lt hrow, Nat.add_zero, Nat.mul_comm]
      exact (Nat.div_add_mod d cols).symm

theorem build_expert_mapping_eq (hpos : 0 < num_devices)
    (hdivides : num_experts % num_devices = 0) :
    build_expert_mapping num_experts num_devices mesh_shape =
      (List.range num_experts).foldlM
        (place_expert mesh_shape num_devices (num_experts / num_devices))
          (Tensor.zeros [1, 1, num_experts, num_devices]) := by
  unfold build_expert_mapping
  rw [ensure_of (by omega), ensure_of hdivides]
  rfl

-- The mapping is built and balanced unless a mesh has more experts than devices.
theorem builds_balanced_iff (hpos : 0 < num_devices) (hdivides : num_experts % num_devices = 0)
    (hmesh : ∀ rows cols, mesh_shape = some (rows, cols) → rows * cols = num_devices) :
    (∃ mapping, build_expert_mapping num_experts num_devices mesh_shape = .ok mapping ∧
      Balanced num_experts num_devices mapping) ↔
        mesh_shape = none ∨ num_experts = 0 ∨ num_experts = num_devices := by
  rw [build_expert_mapping_eq hpos hdivides]
  obtain ⟨k, rfl⟩ := Nat.dvd_of_mod_eq_zero hdivides
  rw [Nat.mul_div_cancel_left k hpos]
  have hbuilds : ∀ f : Nat → Nat,
      (∀ i < num_devices * k, device_id mesh_shape k i = .ok (f i)) →
      (∀ i < num_devices * k, f i < num_devices) →
      (∀ d < num_devices, ((Finset.range (num_devices * k)).filter fun i => d = f i).card =
        num_devices * k / num_devices) → ∃ mapping, (List.range (num_devices * k)).foldlM
          (place_expert mesh_shape num_devices k)
            (Tensor.zeros [1, 1, num_devices * k, num_devices]) = .ok mapping ∧
          Balanced (num_devices * k) num_devices mapping := by
    intro f hid hlt hcolumn
    obtain ⟨mapping, hfold, hshape, hget⟩ := place_experts_ok hid hlt _
    exact ⟨mapping, hfold, balanced_of_marks hshape hlt hget hcolumn⟩
  cases mesh_shape with
  | none =>
      refine iff_of_true (hbuilds (· / k) (fun i hi => ?_) (fun i hi => ?_) fun d hd => ?_)
        (.inl rfl)
      · have hk : k ≠ 0 := fun hk => by simp [hk] at hi
        exact if_neg hk
      · exact Nat.div_lt_of_lt_mul (by rwa [Nat.mul_comm])
      · rw [Nat.mul_div_cancel_left k hpos]
        cases k with
        | zero => rfl
        | succ k => exact card_div_eq (Nat.succ_pos k) hd
  | some mesh =>
      obtain ⟨rows, cols⟩ := mesh
      have hmesh : rows * cols = num_devices := hmesh rows cols rfl
      have hrows : rows ≠ 0 := fun h => by simp [h] at hmesh; omega
      have hid : ∀ i, device_id (some (rows, cols)) k i = .ok (i % rows * cols + i / rows) :=
        fun i => if_neg hrows
      rw [or_iff_right (by simp)]
      constructor
      · intro h
        obtain ⟨mapping, hfold, -⟩ := h
        by_contra hne
        obtain ⟨hzero, hone⟩ := not_or.mp hne
        -- the last row has no place for its expert of the second round
        have hi : num_devices + (rows - 1) < num_devices * k := by
          have hk : 2 ≤ k := by
            by_contra hk
            obtain rfl | rfl : k = 0 ∨ k = 1 := by omega
            · exact hzero (Nat.mul_zero _)
            · exact hone (Nat.mul_one _)
          have hle : rows ≤ num_devices := Nat.le_of_dvd hpos ⟨cols, hmesh.symm⟩
          have htwo : num_devices * 2 ≤ num_devices * k := Nat.mul_le_mul_left _ hk
          omega
        have hlt := device_lt_of_ok hfold _ hi _ (hid _)
        have hlast : rows - 1 < rows := by omega
        rw [← hmesh, Nat.mul_add_mod, Nat.mod_eq_of_lt hlast, Nat.mul_add_div (by omega),
          Nat.div_eq_of_lt hlast, Nat.add_zero, ← Nat.succ_mul] at hlt
        have hrow : (rows - 1).succ = rows := by omega
        rw [hrow] at hlt
        omega
      · intro h
        refine hbuilds _ (fun i _ => hid i) (fun i hi => ?_) fun d hd => ?_
        · obtain hzero | hone := h
          · omega
          · rw [hone, ← hmesh] at hi
            have hcol : i / rows < cols := Nat.div_lt_of_lt_mul hi
            have hrow : i % rows < rows := Nat.mod_lt _ (by omega)
            calc i % rows * cols + i / rows < i % rows * cols + cols := by omega
              _ = (i % rows + 1) * cols := by ring
              _ ≤ rows * cols := Nat.mul_le_mul_right _ hrow
              _ = num_devices := hmesh
        · obtain hzero | hone := h
          · rw [hzero]
            simp
          · rw [hone, Nat.div_self hpos, ← hmesh]
            exact card_transpose_eq (hmesh ▸ hd)

theorem two_experts_balanced : ∃ mapping,
    build_expert_mapping 4 2 none = .ok mapping ∧ Balanced 4 2 mapping :=
  (builds_balanced_iff (by decide) (by decide) (fun _ _ h => by cases h)).mpr (.inl rfl)

-- The sixth of eight experts has no device on a mesh of two rows and two columns.
theorem second_round_out_of_range : ¬∀ num_experts num_devices mesh_shape, 0 < num_devices →
    num_experts % num_devices = 0 →
    (∀ rows cols, mesh_shape = some (rows, cols) → rows * cols = num_devices) →
    ∃ mapping, build_expert_mapping num_experts num_devices mesh_shape = .ok mapping ∧
      Balanced num_experts num_devices mapping := by
  intro h
  obtain ⟨mapping, hbuild, -⟩ := h 8 4 (some (2, 2)) (by decide) (by decide)
    (fun rows cols hmesh => by cases hmesh; rfl)
  cases hbuild

end ExpertMapping

end TTXla.TTTorch
