import TTXla.PJRT.Execution
import TTXla.PJRT.Tensor.Runs

-- What the buffers hold, and what leaves it as it is.
namespace TTXla.PJRT

open Excepts

variable {RT L D : Type} (runtime : DeviceRuntime RT L D)

-- The data of shard `i` once the tensor is on the host. One tensor on the host is that of all
-- shards.
def DeviceRuntime.shard_data (rt : RT) (i : Nat) : Option D :=
  let tensors := runtime.toHost rt
  (tensors[if tensors.length = 1 then 0 else i]?).map runtime.memcpy

-- What the code relies on: a tensor on the host is its own copy there, and neither the retain
-- flag nor the layout changes the data.
structure DeviceRuntime.Lawful : Prop where
  host : ∀ rt, ∀ h ∈ runtime.toHost rt, ∃ h', runtime.toHost h = [h'] ∧
    runtime.memcpy h' = runtime.memcpy h
  retain : ∀ rt retain, (runtime.toHost (runtime.setTensorRetain rt retain)).map runtime.memcpy =
    (runtime.toHost rt).map runtime.memcpy
  memcpy : ∀ rt retain, runtime.memcpy (runtime.setTensorRetain rt retain) = runtime.memcpy rt
  layout : ∀ rt layout retain, (runtime.toHost (runtime.toLayout rt layout retain)).map
    runtime.memcpy = (runtime.toHost rt).map runtime.memcpy
  owned : ∀ data, ∃ h, runtime.toHost (runtime.createOwnedHostTensor data) = [h] ∧
    runtime.memcpy h = data
  -- tensor `i` is placed on device `i`
  multi : ∀ (rts hosts : List RT) strategy mesh_shape,
    rts.map runtime.toHost = hosts.map (fun h => [h]) →
      (runtime.toHost (runtime.createMultiDeviceHostTensor rts strategy mesh_shape)).map
        runtime.memcpy = hosts.map runtime.memcpy

namespace World

variable {w w' : World RT} {b : BufferId} {t : TensorPtr} {tensor : PjrtTensor RT}

-- What a copy of the buffer to the host gives.
def content (w : World RT) (b : BufferId) : Option D := do
  let t ← w.ref b
  let tensor ← w.tensors t
  runtime.shard_data tensor.m_runtime_tensor (tensor.m_shards.idxOf (some b))

section Data

variable {runtime}

theorem shard_data_congr {rt rt' : RT}
    (h : (runtime.toHost rt).map runtime.memcpy = (runtime.toHost rt').map runtime.memcpy)
    (i : Nat) : runtime.shard_data rt i = runtime.shard_data rt' i := by
  have hlen : (runtime.toHost rt).length = (runtime.toHost rt').length := by
    simpa only [List.length_map] using congrArg List.length h
  unfold DeviceRuntime.shard_data
  dsimp only
  rw [← List.getElem?_map, ← List.getElem?_map, h, hlen]

theorem shard_data_of_map {rt : RT} {data : List D} {i : Nat} {d : D}
    (h : (runtime.toHost rt).map runtime.memcpy = data) (hi : data[i]? = some d) :
    runtime.shard_data rt i = some d := by
  have hlt := (List.getElem?_eq_some_iff.mp hi).1
  have hlen : (runtime.toHost rt).length = data.length := by rw [← h, List.length_map]
  have hidx : (if (runtime.toHost rt).length = 1 then 0 else i) = i := by
    split <;> omega
  unfold DeviceRuntime.shard_data
  dsimp only
  rw [hidx, ← List.getElem?_map, h, hi]

theorem shard_data_host (hlaws : runtime.Lawful) {rt h : RT} (hmem : h ∈ runtime.toHost rt)
    (i : Nat) : runtime.shard_data h i = some (runtime.memcpy h) := by
  obtain ⟨h', hhost, hcopy⟩ := hlaws.host rt h hmem
  unfold DeviceRuntime.shard_data
  dsimp only
  rw [hhost, List.length_singleton, if_pos rfl, ← hcopy]
  rfl

theorem content_eq (href : w.ref b = some t) (ht : w.tensors t = some tensor) :
    content runtime w b =
      runtime.shard_data tensor.m_runtime_tensor (tensor.m_shards.idxOf (some b)) := by
  unfold content
  rw [href, Option.bind_eq_bind, Option.bind_some, ht, Option.bind_eq_bind, Option.bind_some]

theorem content_of_own {rt : RT} (h : Own w b rt) :
    content runtime w b = runtime.shard_data rt 0 := by
  obtain ⟨t, tensor, href, ht, hshards, rfl⟩ := h
  rw [content_eq href ht, hshards, List.idxOf_cons_self]

theorem idxOf_without {l : List (Option BufferId)} {moved : List BufferId} (hb : b ∉ moved) :
    (l.map (without moved)).idxOf (some b) = l.idxOf (some b) := by
  induction l with
  | nil => rfl
  | cons x l ih =>
      have hx : without moved x = some b ↔ x = some b := by
        cases x with
        | none => simp [without]
        | some c =>
            by_cases hc : c ∈ moved
            · have hne : c ≠ b := fun h => hb (h ▸ hc)
              simp [without, hc, hne]
            · simp [without, hc]
      rw [List.map_cons, List.idxOf_cons, List.idxOf_cons, ih]
      simp only [beq_eq_decide, hx]

-- A buffer that does not get another tensor keeps what it holds.
theorem Frame.content (hw : Settled w) (hw' : Settled w') {n : TensorPtr}
    {moved : List BufferId} (hframe : Frame n moved w w') (hn : w.next_uid ≤ n)
    (hb : b ∉ moved) : content runtime w' b = content runtime w b := by
  cases href : w.ref b with
  | none =>
      have href' := (hframe.ref b hb).trans href
      simp only [World.content, href, href', Option.bind_eq_bind, Option.bind_none]
  | some t =>
      obtain ⟨tensor, ht⟩ := hw.referenced href
      obtain ⟨tensor', ht', hrt, hshards⟩ := hw.kept hw' hframe hn ht href hb
      rw [content_eq href ht, content_eq ((hframe.ref b hb).trans href) ht', hrt, hshards,
        idxOf_without hb]

end Data

section Steps

variable {runtime}

-- What the buffers hold stays.
structure Kept (runtime : DeviceRuntime RT L D) (w w' : World RT) : Prop where
  settled : Settled w'
  content : ∀ b d, content runtime w b = some d → content runtime w' b = some d

theorem Kept.refl (hw : Settled w) : Kept runtime w w := ⟨hw, fun _ _ h => h⟩

theorem Kept.trans {w'' : World RT} (h : Kept runtime w w') (h' : Kept runtime w' w'') :
    Kept runtime w w'' :=
  ⟨h'.settled, fun b d hd => h'.content b d (h.content b d hd)⟩

-- And no buffer is made or destroyed.
structure Extends (runtime : DeviceRuntime RT L D) (w w' : World RT) : Prop
    extends Kept runtime w w' where
  live : ∀ b, w'.Live b ↔ w.Live b

theorem Extends.refl (hw : Settled w) : Extends runtime w w := ⟨.refl hw, fun _ => Iff.rfl⟩

theorem Extends.trans {w'' : World RT} (h : Extends runtime w w') (h' : Extends runtime w' w'') :
    Extends runtime w w'' :=
  ⟨h.toKept.trans h'.toKept, fun b => (h'.live b).trans (h.live b)⟩

theorem Made.content_shard (hlaws : runtime.Lawful) {n : TensorPtr} {shards : List BufferId}
    {rt : RT} (h : Made n shards (runtime.setTensorRetain rt true) w w') (hnodup : shards.Nodup)
    {i : Nat} (hi : shards[i]? = some b) : content runtime w' b = runtime.shard_data rt i := by
  have hmem := List.mem_of_getElem? hi
  obtain ⟨tensor, ht, hrt, -, hshards⟩ := h.made (List.ne_nil_of_mem hmem)
  have hidx : (shards.map some).idxOf (some b) = i := by
    obtain ⟨hlt, hget⟩ := List.getElem?_eq_some_iff.mp hi
    have hlt' : i < (shards.map some).length := by simpa using hlt
    have hnodup' : (shards.map some).Nodup := hnodup.map (Option.some_injective _)
    have hget' : (shards.map some)[i] = some b := by simp [hget]
    rw [← hget']
    exact hnodup'.idxOf_getElem i hlt'
  rw [content_eq (h.ref b hmem) ht, hrt, hshards hnodup, hidx]
  exact shard_data_congr (hlaws.retain rt true) i

-- A tensor for some buffers, which holds for each of them what the buffer holds already.
theorem from_runtime_tensor_extends (hlaws : runtime.Lawful) (hw : Settled w)
    {shards : List BufferId} (hlive : ∀ b ∈ shards, w.Live b) (hnodup : shards.Nodup) {rt : RT}
    (hdata : ∀ (i : Nat) b d, shards[i]? = some b → content runtime w b = some d →
      runtime.shard_data rt i = some d) :
    ∃ w', w.from_runtime_tensor runtime.toRuntime shards rt = .ok (w', w.next_uid) ∧
      Extends runtime w w' ∧ Made w.next_uid shards (runtime.setTensorRetain rt true) w w' := by
  obtain ⟨w', hcall, hmade⟩ := hw.from_runtime_tensor runtime.toRuntime hlive rt
  refine ⟨w', hcall, ⟨⟨hmade.settled, fun b d hd => ?_⟩, hmade.frame.live_iff⟩, hmade⟩
  by_cases hb : b ∈ shards
  · obtain ⟨i, hi⟩ := List.mem_iff_getElem?.mp hb
    rw [hmade.content_shard hlaws hnodup hi]
    exact hdata i b d hi hd
  · rw [hmade.frame.content hw hmade.settled (Nat.le_refl _) hb]
    exact hd

theorem content_set_tensor {tensor' : PjrtTensor RT} (ht : w.tensors t = some tensor)
    (hshards : tensor'.m_shards = tensor.m_shards)
    (hdata : ∀ i, runtime.shard_data tensor'.m_runtime_tensor i =
      runtime.shard_data tensor.m_runtime_tensor i) :
    content runtime (w.set_tensor t tensor') b = content runtime w b := by
  cases href : w.ref b with
  | none => simp [content, href]
  | some s =>
      by_cases hst : s = t
      · subst hst
        have href' : (w.set_tensor s tensor').ref b = some s := href
        rw [content_eq href ht, content_eq href' (set_tensor_self w s tensor'), hshards, hdata]
      · simp [content, href, hst]

-- Another layout of a tensor.
theorem ensure_layout_extends (hlaws : runtime.Lawful) (hw : Settled w)
    (ht : w.tensors t = some tensor) (layout : L) :
    ∃ w' tensor', w.ensure_layout runtime t layout = .ok w' ∧ Extends runtime w w' ∧
      w'.tensors t = some tensor' ∧
      (runtime.toHost tensor'.m_runtime_tensor).map runtime.memcpy =
        (runtime.toHost tensor.m_runtime_tensor).map runtime.memcpy := by
  by_cases hlayout : runtime.hasLayout tensor.m_runtime_tensor layout
  · refine ⟨w, tensor, ?_, Extends.refl hw, ht, rfl⟩
    unfold ensure_layout
    rw [deref_eq ht]
    exact if_pos hlayout
  · have hsettled : Settled (w.set_tensor t { tensor with
        m_runtime_tensor := runtime.toLayout tensor.m_runtime_tensor layout
          (runtime.getTensorRetain tensor.m_runtime_tensor) }) :=
      hw.set_tensor ht (fun _ => rfl) rfl
    refine ⟨_, _, ?_, ⟨⟨hsettled, fun b d hd => ?_⟩, fun _ => Iff.rfl⟩, set_tensor_self w t _,
      hlaws.layout ..⟩
    · unfold ensure_layout
      rw [deref_eq ht]
      exact if_neg hlayout
    · refine Eq.trans (content_set_tensor ht ?_ ?_) hd
      · rfl
      · exact shard_data_congr (hlaws.layout ..)

-- A move to the host, when it comes back.
theorem move_to_host_extends (hlaws : runtime.Lawful) (hw : Settled w)
    (hcall : w.move_to_host runtime.toRuntime t = .ok w') :
    Extends runtime w w' ∧ (∀ b, w.ref b ≠ some t → w'.ref b = w.ref b) ∧
      ∀ b d, w.ref b = some t → content runtime w b = some d →
        ∃ rt, Own w' b rt ∧ runtime.memcpy rt = d := by
  obtain ⟨tensor, ht⟩ : ∃ tensor, w.tensors t = some tensor := by
    unfold World.move_to_host at hcall
    obtain ⟨tensor, hderef, -⟩ := bind_eq_ok.mp hcall
    exact ⟨tensor, get_eq_ok.mp hderef⟩
  have hfits : Fits runtime.toRuntime tensor := by
    by_contra hfits
    rw [move_to_host_unfit runtime.toRuntime ht hfits] at hcall
    cases hcall
  have hfirst : w.FirstLive t := by
    by_contra hfirst
    rw [hw.move_to_host_fault runtime.toRuntime ht hfits hfirst] at hcall
    cases hcall
  obtain ⟨tensor₀, front, ht₀, hfront⟩ := hfirst
  obtain rfl := Option.some.inj (ht.symm.trans ht₀)
  obtain ⟨w₁, hcall₁, hmoved⟩ := hw.move_to_host_spec runtime.toRuntime ht hfits hfront
  obtain rfl := Except.ok.inj (hcall₁.symm.trans hcall)
  have hown : ∀ b d, w.ref b = some t → content runtime w b = some d →
      ∃ rt, Own w₁ b rt ∧ runtime.memcpy rt = d ∧ runtime.shard_data rt 0 = some d := by
    intro b d href hd
    have hcount : tensor.m_shards.count (some b) = 1 := (hw.shards ht b).trans (if_pos href)
    have hmem : some b ∈ tensor.m_shards := List.count_pos_iff.mp (by omega)
    have hj : tensor.m_shards[tensor.m_shards.idxOf (some b)]? = some (some b) :=
      List.getElem?_idxOf hmem
    rw [content_eq href ht] at hd
    generalize tensor.m_shards.idxOf (some b) = j at hj hd
    by_cases hzero : j = 0
    · subst hzero
      obtain ⟨rt, hrt, hown⟩ := hmoved.first b hj
      have hcopy : runtime.memcpy rt = d := by
        simpa [DeviceRuntime.shard_data, hrt] using hd
      refine ⟨rt, hown, hcopy, ?_⟩
      rw [shard_data_host hlaws (List.mem_of_getElem? hrt), hcopy]
    · obtain ⟨first, hrt, hown⟩ := hmoved.others j b (by omega) hj
      have hlt := (List.getElem?_eq_some_iff.mp hj).1
      obtain ⟨h, hmem', hh, hcopy⟩ : ∃ h ∈ runtime.toHost tensor.m_runtime_tensor,
          host runtime.toRuntime (runtime.toHost tensor.m_runtime_tensor) first j =
            runtime.setTensorRetain h true ∧ runtime.memcpy h = d := by
        unfold DeviceRuntime.shard_data at hd
        unfold World.host
        by_cases hone : (runtime.toHost tensor.m_runtime_tensor).length = 1
        · simp only [if_pos hone, hrt, Option.map_some, Option.some.injEq] at hd
          exact ⟨first, List.mem_of_getElem? hrt, by rw [if_pos hone], hd⟩
        · have hlt' : j < (runtime.toHost tensor.m_runtime_tensor).length := by
            have hfits := hfits.resolve_right hone
            omega
          have hget := List.getElem?_eq_getElem hlt'
          simp only [if_neg hone, hget, Option.map_some, Option.some.injEq] at hd
          refine ⟨_, List.getElem_mem hlt', ?_, hd⟩
          rw [if_neg hone, List.getD_eq_getElem?_getD, hget, Option.getD_some]
      rw [hh] at hown
      refine ⟨_, hown, (hlaws.memcpy h true).trans hcopy, ?_⟩
      rw [shard_data_congr (hlaws.retain h true), shard_data_host hlaws hmem', hcopy]
  refine ⟨⟨⟨hmoved.settled, fun b d hd => ?_⟩, hmoved.live⟩, hmoved.ref, fun b d href hd => ?_⟩
  · by_cases href : w.ref b = some t
    · obtain ⟨rt, hb, -, hdata⟩ := hown b d href hd
      rw [content_of_own hb, hdata]
    · cases hu : w.ref b with
      | none => simp [content, hu] at hd
      | some u =>
          have hu' : w₁.ref b = some u := (hmoved.ref b href).trans hu
          have hne : u ≠ t := by
            rintro rfl
            exact href hu
          obtain ⟨tensor', ht'⟩ := hmoved.settled.referenced hu'
          obtain ⟨tensor₀, hu₀⟩ := hw.referenced hu
          obtain ⟨tensor₁, hu₁, hrt, hshards⟩ := hmoved.kept hne (hw.lt_next_uid hu₀) ht'
          obtain rfl := Option.some.inj (hu₀.symm.trans hu₁)
          rw [content_eq hu' ht', hrt, hshards, ← content_eq hu hu₀]
          exact hd
  · obtain ⟨rt, hb, hcopy, -⟩ := hown b d href hd
    exact ⟨rt, hb, hcopy⟩

end Steps

section Arguments

variable {arg : Argument L} {num_devices : Nat} {mesh_shape : List Nat}

-- The tensor of the buffer is one tensor on the host.
def Single (w : World RT) (b : BufferId) : Prop :=
  ∀ t tensor, w.ref b = some t → w.tensors t = some tensor →
    (runtime.toHost tensor.m_runtime_tensor).length = 1

def UsesIdentity (arg : Argument L) (num_devices : Nat) : Prop :=
  ∃ strategy, fillStrategyMapFromSharding arg.sharding num_devices = .ok (some strategy) ∧
    strategy.lookup "strategy" = some "identity"

-- Buffers that do not share a tensor are combined only when each has one of its own, and under
-- the identity strategy only when they hold the same.
structure Meets (w : World RT) (arg : Argument L) (num_devices : Nat) : Prop where
  nonempty : arg.arg_buffers ≠ []
  live : ∀ b ∈ arg.arg_buffers, w.Live b
  apart : (∃ b ∈ arg.arg_buffers, ∃ c ∈ arg.arg_buffers, w.ref b ≠ w.ref c) →
    arg.arg_buffers.Nodup ∧ (∀ b ∈ arg.arg_buffers, Single runtime w b) ∧
      (UsesIdentity arg num_devices → ∀ b ∈ arg.arg_buffers, ∀ c ∈ arg.arg_buffers,
        content runtime w b = content runtime w c)

-- Buffers that share a tensor are all of its shards, in their order.
def InOrder (w : World RT) (arg : Argument L) : Prop :=
  ∀ t tensor, (∀ b ∈ arg.arg_buffers, w.ref b = some t) → w.tensors t = some tensor →
    tensor.m_shards = arg.arg_buffers.map some

-- A tensor holds for each buffer of the list what the buffer holds.
def Holds (w : World RT) (buffers : List BufferId) (rt : RT) : Prop :=
  ∀ (i : Nat) b d, buffers[i]? = some b → content runtime w b = some d →
    runtime.shard_data rt i = some d

variable {runtime}

-- The tensors on the host of buffers that have one each.
theorem hosts_of_single (hw : Settled w) {buffers : List BufferId} {rts : List RT}
    (hlive : ∀ b ∈ buffers, w.Live b) (hsingle : ∀ b ∈ buffers, Single runtime w b)
    (hrts : List.Forall₂ (fun b rt => w.runtimeTensor b = .ok rt) buffers rts) :
    ∃ hosts : List RT, rts.map runtime.toHost = hosts.map (fun h => [h]) ∧
      List.Forall₂ (fun b h => content runtime w b = some (runtime.memcpy h)) buffers hosts := by
  induction hrts with
  | nil => exact ⟨[], rfl, .nil⟩
  | @cons b rt buffers rts hrt _ ih =>
      obtain ⟨hosts, hhosts, hdata⟩ := ih (fun c hc => hlive c (List.mem_cons_of_mem _ hc))
        fun c hc => hsingle c (List.mem_cons_of_mem _ hc)
      rcases hw.runtimeTensor (hlive b List.mem_cons_self) with ⟨t, tensor, href, ht, hrt'⟩ | hrt'
      · obtain rfl := Except.ok.inj (hrt'.symm.trans hrt)
        have hone := hsingle b List.mem_cons_self t tensor href ht
        obtain ⟨h, hh⟩ := List.length_eq_one_iff.mp hone
        refine ⟨h :: hosts, by rw [List.map_cons, hh, hhosts, List.map_cons], .cons ?_ hdata⟩
        rw [content_eq href ht]
        simp only [DeviceRuntime.shard_data, hh, List.length_singleton, if_true]
        rfl
      · rw [hrt'] at hrt
        cases hrt

theorem Meets.strategy_data (hlaws : runtime.Lawful) (hw : Settled w)
    (h : Meets runtime w arg num_devices)
    (hapart : ∃ b ∈ arg.arg_buffers, ∃ c ∈ arg.arg_buffers, w.ref b ≠ w.ref c)
    {strategy : Strategy}
    (hstrategy : fillStrategyMapFromSharding arg.sharding num_devices = .ok (some strategy))
    {rt : RT} (hcall : w.rt_tensor_from_strategy runtime.toRuntime arg.arg_buffers strategy
      mesh_shape = .ok rt) : Holds runtime w arg.arg_buffers rt := by
  obtain ⟨-, hsingle, hsame⟩ := h.apart hapart
  unfold World.rt_tensor_from_strategy at hcall
  obtain ⟨name, hname, hcall⟩ := bind_eq_ok.mp hcall
  have hname := get_eq_ok.mp hname
  by_cases hidentity : name = "identity"
  · rw [if_pos hidentity] at hcall
    obtain ⟨front, hfront, hcall⟩ := bind_eq_ok.mp hcall
    have hmem := List.mem_of_mem_head? (get_eq_ok.mp hfront)
    intro i b d hb hd
    rw [hsame ⟨strategy, hstrategy, hidentity ▸ hname⟩ b (List.mem_of_getElem? hb) front hmem] at hd
    rcases hw.runtimeTensor (h.live front hmem) with ⟨t, tensor, href, ht, hrt⟩ | hrt
    · rw [hrt] at hcall
      obtain rfl := Except.ok.inj hcall
      rw [content_eq href ht] at hd
      simpa only [DeviceRuntime.shard_data, hsingle front hmem t tensor href ht, if_true] using hd
    · rw [hrt] at hcall
      cases hcall
  · rw [if_neg hidentity] at hcall
    obtain ⟨rts, hrts, hcall⟩ := bind_eq_ok.mp hcall
    obtain rfl := Except.ok.inj hcall
    obtain ⟨hosts, hhosts, hdata⟩ := hosts_of_single hw h.live hsingle (mapM_eq_ok.mp hrts)
    intro i b d hb hd
    refine shard_data_of_map (hlaws.multi _ hosts strategy mesh_shape hhosts) ?_
    obtain ⟨hlt, hget⟩ := List.getElem?_eq_some_iff.mp hb
    have hlt' : i < hosts.length := hdata.length_eq ▸ hlt
    have hcontent := hdata.get hlt hlt'
    rw [List.get_eq_getElem, hget, hd] at hcontent
    rw [List.getElem?_map, List.getElem?_eq_getElem hlt']
    exact hcontent.symm

theorem prepareInputTensor_cases {prepared : Option RT}
    (hcall : w.prepareInputTensor runtime arg num_devices mesh_shape = .ok (w', prepared)) :
    (w' = w ∧ prepared = none) ∨ ∃ strategy w₁ t tensor,
      fillStrategyMapFromSharding arg.sharding num_devices = .ok (some strategy) ∧
      w.from_pjrt_buffers runtime.toRuntime arg.arg_buffers mesh_shape strategy = .ok (w₁, t) ∧
      w₁.ensure_layout runtime t arg.expected_layout = .ok w' ∧
      w'.tensors t = some tensor ∧ prepared = some tensor.m_runtime_tensor := by
  unfold prepareInputTensor at hcall
  obtain ⟨strategy, hstrategy, hcall⟩ := bind_eq_ok.mp hcall
  cases strategy with
  | none =>
      cases hcall
      exact Or.inl ⟨rfl, rfl⟩
  | some strategy =>
      obtain ⟨⟨w₁, t⟩, hbuffers, hcall⟩ := bind_eq_ok.mp hcall
      obtain ⟨w₂, hlayout, hcall⟩ := bind_eq_ok.mp hcall
      obtain ⟨tensor, ht, hcall⟩ := bind_eq_ok.mp hcall
      cases hcall
      exact Or.inr ⟨strategy, w₁, t, tensor, hstrategy, hbuffers, hlayout, get_eq_ok.mp ht, rfl⟩

-- The tensor that the buffers of an argument get.
theorem Meets.from_pjrt_buffers (hlaws : runtime.Lawful) (hw : Settled w)
    (h : Meets runtime w arg num_devices) {strategy : Strategy}
    (hstrategy : fillStrategyMapFromSharding arg.sharding num_devices = .ok (some strategy))
    {w₁ : World RT}
    (hcall : w.from_pjrt_buffers runtime.toRuntime arg.arg_buffers mesh_shape strategy =
      .ok (w₁, t)) :
    Extends runtime w w₁ ∧ ∃ tensor, w₁.tensors t = some tensor ∧
      (InOrder w arg → Holds runtime w arg.arg_buffers tensor.m_runtime_tensor) := by
  obtain ⟨front, rest, hbuffers⟩ := List.exists_cons_of_ne_nil h.nonempty
  have hmem : front ∈ arg.arg_buffers := by simp [hbuffers]
  have hfront : arg.arg_buffers.head? = some front := by simp [hbuffers]
  by_cases hall : ∀ b ∈ arg.arg_buffers, w.ref b = w.ref front
  · rw [from_pjrt_buffers_same runtime.toRuntime h.live hfront hall] at hcall
    obtain ⟨t', href, hcall⟩ := bind_eq_ok.mp hcall
    have href := get_eq_ok.mp href
    cases hcall
    obtain ⟨tensor, ht⟩ := hw.referenced href
    refine ⟨Extends.refl hw, tensor, ht, fun horder i b d hb hd => ?_⟩
    have hb' := (hall b (List.mem_of_getElem? hb)).trans href
    have hshards := horder t tensor (fun c hc => (hall c hc).trans href) ht
    have hi : tensor.m_shards[i]? = some (some b) := by simp [hshards, hb]
    have hidx : tensor.m_shards.idxOf (some b) = i :=
      index_unique (hw.count_le ht b) (List.getElem?_idxOf (List.mem_of_getElem? hi)) hi
    rw [content_eq hb' ht, hidx] at hd
    exact hd
  · rw [from_pjrt_buffers_new runtime.toRuntime h.live hfront hall] at hcall
    have hapart : ∃ b ∈ arg.arg_buffers, ∃ c ∈ arg.arg_buffers, w.ref b ≠ w.ref c := by
      push Not at hall
      obtain ⟨b, hb, hne⟩ := hall
      exact ⟨b, hb, front, hmem, hne⟩
    obtain ⟨rt, hrt, hcall⟩ := bind_eq_ok.mp hcall
    have hdata := h.strategy_data hlaws hw hapart hstrategy hrt
    obtain ⟨w₂, hcall', hextends, hmade⟩ :=
      from_runtime_tensor_extends hlaws hw h.live (h.apart hapart).1 hdata
    obtain ⟨rfl, rfl⟩ := Prod.mk.inj (Except.ok.inj (hcall'.symm.trans hcall))
    obtain ⟨tensor, ht, hretained, -⟩ := hmade.made h.nonempty
    refine ⟨hextends, tensor, ht, fun _ i b d hb hd => ?_⟩
    rw [hretained, shard_data_congr (hlaws.retain rt true)]
    exact hdata i b d hb hd

theorem Meets.prepareInputTensor (hlaws : runtime.Lawful) (hw : Settled w)
    (h : Meets runtime w arg num_devices) {prepared : Option RT}
    (hcall : w.prepareInputTensor runtime arg num_devices mesh_shape = .ok (w', prepared)) :
    Extends runtime w w' ∧ ∀ rt, prepared = some rt → InOrder w arg →
      Holds runtime w arg.arg_buffers rt := by
  obtain ⟨rfl, rfl⟩ | ⟨strategy, w₁, t, tensor, hstrategy, hbuffers, hlayout, ht, rfl⟩ :=
    prepareInputTensor_cases hcall
  · exact ⟨Extends.refl hw, fun rt hrt => by cases hrt⟩
  · obtain ⟨hextends, tensor₁, ht₁, hholds⟩ := h.from_pjrt_buffers hlaws hw hstrategy hbuffers
    obtain ⟨w₂, tensor₂, hlayout', hextends', ht₂, hdata⟩ :=
      ensure_layout_extends hlaws hextends.settled ht₁ arg.expected_layout
    obtain rfl := Except.ok.inj (hlayout'.symm.trans hlayout)
    obtain rfl := Option.some.inj (ht₂.symm.trans ht)
    refine ⟨hextends.trans hextends', fun rt hrt horder i b d hb hd => ?_⟩
    obtain rfl := Option.some.inj hrt
    rw [shard_data_congr hdata]
    exact hholds horder i b d hb hd

end Arguments

end World

end TTXla.PJRT
