import TTXla.PJRT.Tensor.Moves
import TTXla.Lib.Run

-- Runs of the operations on buffers and tensors.
namespace TTXla.PJRT.World

open Excepts Run

variable {RT : Type} (runtime : Runtime RT) {w : World RT} {t : TensorPtr} {b : BufferId}
  {shards : List BufferId}

-- A buffer without a tensor is destroyed.
theorem Settled.forget (h : Settled w) (hb : w.ref b = none) :
    Settled { w with buffers := Function.update w.buffers b none } := by
  have href : ∀ c, World.ref { w with buffers := Function.update w.buffers b none } c =
      w.ref c := by
    intro c
    change (Function.update w.buffers b none c).bind _ = _
    by_cases hc : c = b
    · subst hc
      rw [Function.update_self, hb]
      rfl
    · rw [Function.update_of_ne hc]
      rfl
  refine ⟨fun hs c => ?_, fun hs => ?_, h.used, fun {c s} hc => ?_, h.pooled,
    fun {c r} hr => ?_, h.fresh⟩
  · rw [href]
    exact h.shards hs c
  · obtain ⟨owners, howners, hcount⟩ := h.counted hs
    exact ⟨owners, fun c => by rw [href, howners], hcount⟩
  · rw [href] at hc
    exact h.referenced hc
  · dsimp only at hr
    rw [Function.update_apply] at hr
    split at hr
    · cases hr
    · exact h.shard hr

-- What the destruction of a buffer leaves.
structure Destroyed (b : BufferId) (w w' : World RT) : Prop where
  settled : Settled w'
  next_uid : w'.next_uid = w.next_uid
  gone : w'.buffers b = none
  others : ∀ c, c ≠ b → w'.buffers c = w.buffers c
  kept : ∀ {u tensor'}, w'.tensors u = some tensor' → ∃ tensor, w.tensors u = some tensor ∧
    tensor'.m_runtime_tensor = tensor.m_runtime_tensor ∧
      tensor'.m_shards = tensor.m_shards.map (without [b])

theorem Settled.destroy_buffer (h : Settled w) (hb : w.Live b) :
    ∃ w', w.destroy_buffer b = .ok w' ∧ Destroyed b w w' := by
  obtain ⟨r, hr⟩ := hb
  have hacc : w.Accepts b none := by
    intro t ht
    cases ht
  have hwhole : Whole w.next_uid (fun _ => none) := fun _ _ => rfl
  cases hs : r.m_tensor with
  | none =>
      have hreset := h.reset_of_none hacc hr hs
      have href : w.ref b = none := (ref_of_buffer hr).trans hs
      have hforget : World.set_ref w b ⟨none, none⟩ = w := by
        unfold World.set_ref
        have hr' : r = ⟨none, none⟩ := by
          have hshard := h.shard hr
          rw [hs] at hshard
          cases r
          cases hs
          cases hshard
          rfl
        rw [← hr', ← hr, Function.update_eq_self]
      refine ⟨{ w with buffers := Function.update w.buffers b none }, ?_, h.forget href, rfl,
        Function.update_self .., fun c hc => Function.update_of_ne hc .., fun {u tensor'} hu => ?_⟩
      · unfold World.destroy_buffer
        rw [show w.reset b none none = _ from hreset, Option.map_none, hforget]
        rfl
      · refine ⟨tensor', hu, rfl, (h.map_without hwhole (h.lt_next_uid hu) hu ?_).symm⟩
        rw [href]
        exact (Option.some_ne_none u).symm
  | some s =>
      have href : w.ref b = some s := (ref_of_buffer hr).trans hs
      obtain ⟨tensor, ht⟩ := h.referenced href
      have hleft := h.leave ht href
      have hself : (w.left b s tensor).set_ref b ⟨none, none⟩ = w.left b s tensor := by
        unfold left
        rw [set_ref_set_ref]
      have hreset := h.reset_of_some hacc hr hs ht (hself.symm ▸ hleft)
      have ht' : (w.left b s tensor).tensors s =
          some { tensor with m_shards := hide b tensor.m_shards } := by
        rw [left, set_ref_tensors, set_tensor_self]
      have hreleased := hleft.release ht' (by rw [Function.update_self]; exact Nat.one_pos)
      have hmoved : w.moved b s tensor none = (w.left b s tensor).dropped s
          { tensor with m_shards := hide b tensor.m_shards } := by
        unfold moved
        rw [Option.map_none, hself]
      have hsettled : Settled (w.moved b s tensor none) := by
        rw [hmoved]
        refine hreleased.congr (fun u => ?_) fun _ => rfl
        by_cases hus : u = s
        · subst hus
          simp
        · simp [hus]
      have href' : (w.moved b s tensor none).ref b = none := by
        rw [moved, dropped_ref, set_ref_ref, if_pos rfl]
      have hframe := h.frame_of_moved hr hs ht hwhole none
      refine ⟨{ w.moved b s tensor none with
          buffers := Function.update (w.moved b s tensor none).buffers b none }, ?_,
        hsettled.forget href', ?_, Function.update_self .., fun c hc => ?_,
        fun {u tensor'} hu => ?_⟩
      · unfold World.destroy_buffer
        rw [show w.reset b none none = _ from hreset]
        rfl
      · change (w.moved b s tensor none).next_uid = _
        rw [moved, dropped_next_uid]
        rfl
      · refine (Function.update_of_ne hc _ _).trans ?_
        rw [moved, dropped_buffers, set_ref_buffers, if_neg hc, left,
          set_ref_buffers, if_neg hc, set_tensor_buffers]
      · have hlt := hsettled.lt_next_uid hu
        rw [moved, dropped_next_uid] at hlt
        exact hframe.kept hlt hu

-- The failures that are left: checks of the caller's data.
def Refused (fault : Fault) : Prop :=
  fault = .fatal "Unexpected number of tensors after move to host" ∨
    fault = .fatal "Accessing non-existing PJRT tensor" ∨ fault = .out_of_range

theorem pjrt_tensor_eq (hb : w.Live b) :
    w.pjrt_tensor b = get (w.ref b) (.fatal "Accessing non-existing PJRT tensor") := by
  obtain ⟨r, hr⟩ := hb
  unfold pjrt_tensor
  rw [show w.buffer b = .ok r from get_eq_ok.mpr hr, ref_of_buffer hr]
  rfl

theorem Settled.runtimeTensor (h : Settled w) (hb : w.Live b) :
    (∃ t tensor, w.ref b = some t ∧ w.tensors t = some tensor ∧
      w.runtimeTensor b = .ok tensor.m_runtime_tensor) ∨
      w.runtimeTensor b = .error (.fatal "Accessing non-existing PJRT tensor") := by
  unfold World.runtimeTensor
  rw [pjrt_tensor_eq hb]
  cases hs : w.ref b with
  | none => exact Or.inr rfl
  | some t =>
      obtain ⟨tensor, ht⟩ := h.referenced hs
      refine Or.inl ⟨t, tensor, rfl, ht, ?_⟩
      change (w.deref t >>= _) = _
      rw [deref_eq ht]
      rfl

theorem Settled.runtimeTensors (h : Settled w) (hlive : ∀ b ∈ shards, w.Live b) :
    (∃ rts, shards.mapM w.runtimeTensor = .ok rts) ∨
      shards.mapM w.runtimeTensor = .error (.fatal "Accessing non-existing PJRT tensor") := by
  induction shards with
  | nil => exact Or.inl ⟨[], rfl⟩
  | cons b shards ih =>
      rw [List.mapM_cons]
      rcases h.runtimeTensor (hlive b List.mem_cons_self) with ⟨t, tensor, -, -, hrt⟩ | hrt
      · rw [hrt]
        rcases ih fun c hc => hlive c (List.mem_cons_of_mem _ hc) with ⟨rts, hrts⟩ | hrts
        · rw [hrts]
          exact Or.inl ⟨_, rfl⟩
        · rw [hrts]
          exact Or.inr rfl
      · rw [hrt]
        exact Or.inr rfl

theorem mapM_buffer (hlive : ∀ b ∈ shards, w.Live b) :
    ∃ refs, shards.mapM w.buffer = .ok refs ∧ refs.map (·.m_tensor) = shards.map w.ref := by
  induction shards with
  | nil => exact ⟨[], rfl, rfl⟩
  | cons b shards ih =>
      obtain ⟨r, hr⟩ := hlive b List.mem_cons_self
      obtain ⟨refs, hrefs, hmap⟩ := ih fun c hc => hlive c (List.mem_cons_of_mem _ hc)
      refine ⟨r :: refs, ?_, ?_⟩
      · rw [List.mapM_cons, show w.buffer b = .ok r from get_eq_ok.mpr hr, hrefs]
        rfl
      · rw [List.map_cons, List.map_cons, hmap, ref_of_buffer hr]

theorem have_same_tensor_eq (hlive : ∀ b ∈ shards, w.Live b) {front : BufferId}
    (hfront : shards.head? = some front) :
    ∃ same, w.have_same_tensor shards = .ok same ∧
      (same = true ↔ ∀ b ∈ shards, w.ref b = w.ref front) := by
  obtain ⟨refs, hrefs, hmap⟩ := mapM_buffer hlive
  have hhead : (refs.head?.bind (·.m_tensor)) = w.ref front := by
    cases shards with
    | nil => cases hfront
    | cons b shards =>
        obtain rfl := Option.some.inj hfront
        cases refs with
        | nil => cases hmap
        | cons r refs => exact (List.cons.inj hmap).1
  refine ⟨refs.all fun ref => ref.m_tensor = (refs.head?.bind (·.m_tensor)), ?_, ?_⟩
  · unfold have_same_tensor
    rw [hrefs]
    rfl
  · rw [List.all_eq_true, hhead]
    constructor
    · intro hall b hb
      have hmem : w.ref b ∈ refs.map (·.m_tensor) := hmap ▸ List.mem_map_of_mem hb
      obtain ⟨r, hr, hrb⟩ := List.mem_map.mp hmem
      rw [← hrb]
      exact of_decide_eq_true (hall r hr)
    · intro hall r hr
      have hmem : r.m_tensor ∈ shards.map w.ref := hmap ▸ List.mem_map_of_mem hr
      obtain ⟨b, hb, hbr⟩ := List.mem_map.mp hmem
      exact decide_eq_true (hbr ▸ hall b hb)

-- A list of buffers gets the tensor that they share, or a new one.
theorem from_pjrt_buffers_same (hlive : ∀ b ∈ shards, w.Live b) {front : BufferId}
    (hfront : shards.head? = some front) (hall : ∀ b ∈ shards, w.ref b = w.ref front)
    (mesh_shape : List Nat) (strategy : Strategy) :
    w.from_pjrt_buffers runtime shards mesh_shape strategy = (do
      let t ← get (w.ref front) (.fatal "Accessing non-existing PJRT tensor")
      return (w, t)) := by
  obtain ⟨same, hsame, hiff⟩ := have_same_tensor_eq hlive hfront
  obtain rfl := hiff.mpr hall
  unfold from_pjrt_buffers from_shards
  rw [hsame, hfront, ← pjrt_tensor_eq (hlive front (List.mem_of_mem_head? hfront))]
  rfl

theorem from_pjrt_buffers_new (hlive : ∀ b ∈ shards, w.Live b) {front : BufferId}
    (hfront : shards.head? = some front) (hnot : ¬∀ b ∈ shards, w.ref b = w.ref front)
    (mesh_shape : List Nat) (strategy : Strategy) :
    w.from_pjrt_buffers runtime shards mesh_shape strategy = (do
      let rt ← w.rt_tensor_from_strategy runtime shards strategy mesh_shape
      w.from_runtime_tensor runtime shards rt) := by
  obtain ⟨same, hsame, hiff⟩ := have_same_tensor_eq hlive hfront
  obtain rfl : same = false := Bool.eq_false_iff.mpr (hiff.not.mpr hnot)
  unfold from_pjrt_buffers
  rw [hsame]
  rfl

theorem Settled.rt_tensor_from_strategy (h : Settled w) (hlive : ∀ b ∈ shards, w.Live b)
    {front : BufferId} (hfront : shards.head? = some front) (strategy : Strategy)
    (mesh_shape : List Nat) :
    (∃ rt, w.rt_tensor_from_strategy runtime shards strategy mesh_shape = .ok rt) ∨
      ∃ fault, w.rt_tensor_from_strategy runtime shards strategy mesh_shape = .error fault ∧
        Refused fault := by
  unfold World.rt_tensor_from_strategy
  cases hname : strategy.lookup "strategy" with
  | none => exact Or.inr ⟨_, rfl, Or.inr (Or.inr rfl)⟩
  | some name =>
      change (∃ rt, (if name = "identity" then _ else _) = _) ∨
        ∃ fault, (if name = "identity" then _ else _) = _ ∧ _
      by_cases hid : name = "identity"
      · simp only [if_pos hid, hfront]
        rcases h.runtimeTensor (hlive front (List.mem_of_mem_head? hfront)) with
          ⟨t, tensor, -, -, hrt⟩ | hrt
        · exact Or.inl ⟨_, hrt⟩
        · exact Or.inr ⟨_, hrt, Or.inr (Or.inl rfl)⟩
      · simp only [if_neg hid]
        rcases h.runtimeTensors hlive with ⟨rts, hrts⟩ | hrts
        · rw [hrts]
          exact Or.inl ⟨_, rfl⟩
        · rw [hrts]
          exact Or.inr ⟨_, rfl, Or.inr (Or.inl rfl)⟩

inductive Op (RT : Type) where
  -- a buffer is made, without a tensor
  | create (b : BufferId)
  | from_runtime_tensor (shards : List BufferId) (rt_tensor : RT)
  | from_pjrt_buffers (shards : List BufferId) (mesh_shape : List Nat) (strategy : Strategy)
  | move_to_host (t : TensorPtr)
  | move_tensors_to_host (tensors : List TensorPtr)
  | destroy (b : BufferId)

def exec (w : World RT) : Op RT → Except Fault (World RT)
  | .create b => .ok { w with buffers := Function.update w.buffers b (some ⟨none, none⟩) }
  | .from_runtime_tensor shards rt => Prod.fst <$> w.from_runtime_tensor runtime shards rt
  | .from_pjrt_buffers shards mesh_shape strategy =>
      Prod.fst <$> w.from_pjrt_buffers runtime shards mesh_shape strategy
  | .move_to_host t => w.move_to_host runtime t
  | .move_tensors_to_host tensors => w.move_tensors_to_host runtime tensors
  | .destroy b => w.destroy_buffer b

-- The callers pass buffers and tensors that exist, and the pool lists its tensors in any order.
def Valid (w : World RT) : Op RT → Prop
  | .create b => ¬w.Live b
  | .from_runtime_tensor shards _ => ∀ b ∈ shards, w.Live b
  | .from_pjrt_buffers shards _ _ => shards ≠ [] ∧ ∀ b ∈ shards, w.Live b
  | .move_to_host t => t ∈ w.m_tensors
  | .move_tensors_to_host tensors => tensors.Nodup ∧ ∀ t, t ∈ tensors ↔ t ∈ w.m_tensors
  | .destroy b => w.Live b

-- A tensor moves to the host only while its first shard is not deleted.
def FirstShards (w : World RT) : Op RT → Prop
  | .move_to_host t => w.FirstLive t
  | .move_tensors_to_host _ => ∀ t ∈ w.m_tensors, w.FirstLive t
  | _ => True

-- The pool has the tensors that some buffer refers to. The shards of a tensor refer to it, and
-- a buffer that refers to it is one of its shards, once.
structure Invariant (w : World RT) : Prop where
  pool : ∀ t, t ∈ w.m_tensors ↔ ∃ b, w.Live b ∧ w.ref b = some t
  shards : ∀ t ∈ w.m_tensors, ∃ tensor, w.tensors t = some tensor ∧
    (∀ b, some b ∈ tensor.m_shards → w.Live b ∧ w.ref b = some t) ∧
    ∀ b, w.ref b = some t → tensor.m_shards.count (some b) = 1

theorem Settled.invariant (h : Settled w) : Invariant w where
  pool := fun t => by
    rw [h.pooled]
    constructor
    · intro hex
      obtain ⟨tensor, ht⟩ := hex
      obtain ⟨owners, howners, hcount⟩ := h.counted ht
      have hused := h.used ht
      obtain ⟨b, hb⟩ : owners.Nonempty := Finset.card_pos.mp (by omega)
      exact ⟨b, live_of_ref ((howners b).mp hb), (howners b).mp hb⟩
    · intro hex
      obtain ⟨b, -, hb⟩ := hex
      exact h.referenced hb
  shards := fun t ht => by
    obtain ⟨tensor, ht⟩ := (h.pooled t).mp ht
    refine ⟨tensor, ht, fun b hb => ?_, fun b hb => ?_⟩
    · exact ⟨live_of_ref (h.ref_of_mem ht hb), h.ref_of_mem ht hb⟩
    · exact (h.shards ht b).trans (if_pos hb)

-- The tensors that an operation moves.
def moves : Op RT → List TensorPtr
  | .move_to_host t => [t]
  | .move_tensors_to_host tensors => tensors
  | _ => []

-- The shards of the tensors that moved have tensors of their own.
def Separated (w : World RT) (tensors : List TensorPtr) (w' : World RT) : Prop :=
  ∀ t ∈ tensors, ∀ tensor, w.tensors t = some tensor → ∀ b, some b ∈ tensor.m_shards →
    ∃ rt, Own w' b rt

-- What an operation does: the invariant holds again, or the runtime's or the caller's data is
-- refused. No destroyed object is used.
def Keeps (w : World RT) (op : Op RT) : Prop :=
  match w.exec runtime op with
  | .ok w' => Invariant w' ∧ Separated w (moves op) w'
  | .error fault => Refused fault

theorem Settled.create (h : Settled w) (hb : ¬w.Live b) :
    Settled { w with buffers := Function.update w.buffers b (some ⟨none, none⟩) } := by
  have href : ∀ c, World.ref
      { w with buffers := Function.update w.buffers b (some ⟨none, none⟩) } c = w.ref c := by
    intro c
    change (Function.update w.buffers b (some ⟨none, none⟩) c).bind _ = _
    by_cases hc : c = b
    · subst hc
      have hnone : w.buffers c = none := Option.eq_none_iff_forall_ne_some.mpr
        fun r hr => hb ⟨r, hr⟩
      unfold ref
      rw [Function.update_self, hnone]
      rfl
    · rw [Function.update_of_ne hc]
      rfl
  refine ⟨fun hs c => ?_, fun hs => ?_, h.used, fun {c s} hc => ?_, h.pooled,
    fun {c r} hr => ?_, h.fresh⟩
  · rw [href]
    exact h.shards hs c
  · obtain ⟨owners, howners, hcount⟩ := h.counted hs
    exact ⟨owners, fun c => by rw [href, howners], hcount⟩
  · rw [href] at hc
    exact h.referenced hc
  · dsimp only at hr
    rw [Function.update_apply] at hr
    split at hr
    · cases hr
      rfl
    · exact h.shard hr

theorem move_to_host_unfit {tensor : PjrtTensor RT} (ht : w.tensors t = some tensor)
    (hfits : ¬Fits runtime tensor) : w.move_to_host runtime t =
      .error (.fatal "Unexpected number of tensors after move to host") := by
  unfold Fits at hfits
  unfold move_to_host
  rw [deref_eq ht]
  change (ensure _ _ >>= _) = _
  rw [ensure_eq_error.mpr ⟨hfits, rfl⟩]
  rfl

theorem MovedToHost.own {tensor : PjrtTensor RT} {w' : World RT}
    (h : MovedToHost runtime t tensor w w') (hb : some b ∈ tensor.m_shards) :
    ∃ rt, Own w' b rt := by
  obtain ⟨j, hj⟩ := List.mem_iff_getElem?.mp hb
  cases j with
  | zero =>
      obtain ⟨rt, -, hown⟩ := h.first b hj
      exact ⟨rt, hown⟩
  | succ j =>
      obtain ⟨rt, -, hown⟩ := h.others (j + 1) b (Nat.succ_pos j) hj
      exact ⟨_, hown⟩

-- A move leaves the tensors of other buffers.
theorem MovedToHost.tensor_of_ref {tensor tensor₀ : PjrtTensor RT} {w' : World RT}
    {u : TensorPtr} (h : MovedToHost runtime t tensor w w') (hw : Settled w)
    (hb : w.ref b = some u) (hu : u ≠ t) (hu₀ : w.tensors u = some tensor₀) :
    ∃ tensor', w'.ref b = some u ∧ w'.tensors u = some tensor' ∧
      tensor'.m_runtime_tensor = tensor₀.m_runtime_tensor ∧
      tensor'.m_shards = tensor₀.m_shards := by
  have hb' : w'.ref b = some u := (h.ref b fun hbt => hu (Option.some.inj
    (hb.symm.trans hbt))).trans hb
  obtain ⟨tensor', hu'⟩ := h.settled.referenced hb'
  obtain ⟨tensor₁, hu₁, hrt, hshards⟩ := h.kept hu (hw.lt_next_uid hu₀) hu'
  obtain rfl := Option.some.inj (hu₀.symm.trans hu₁)
  exact ⟨tensor', hb', hu', hrt, hshards⟩

theorem MovedToHost.firstLive {tensor : PjrtTensor RT} {w' : World RT} {u : TensorPtr}
    (h : MovedToHost runtime t tensor w w') (hw : Settled w) (hu : u ≠ t)
    (hfirst : w.FirstLive u) : w'.FirstLive u := by
  obtain ⟨tensor₀, b, hu₀, hb⟩ := hfirst
  have href := hw.ref_of_mem hu₀ (List.mem_of_getElem? hb)
  obtain ⟨tensor', -, hu', -, hshards⟩ := h.tensor_of_ref runtime hw href hu hu₀
  exact ⟨tensor', b, hu', hshards ▸ hb⟩

theorem MovedToHost.own_of_own {tensor : PjrtTensor RT} {w' : World RT} {rt : RT}
    (h : MovedToHost runtime t tensor w w') (hw : Settled w) (ht : w.tensors t = some tensor)
    (hown : Own w b rt) : ∃ rt', Own w' b rt' := by
  obtain ⟨u, tensor₀, hb, hu₀, hshards, hrt⟩ := hown
  by_cases hu : u = t
  · subst hu
    obtain rfl := Option.some.inj (ht.symm.trans hu₀)
    exact h.own runtime (by rw [hshards]; exact List.mem_cons_self)
  · obtain ⟨tensor', hb', hu', -, hshards'⟩ := h.tensor_of_ref runtime hw hb hu hu₀
    exact ⟨_, u, tensor', hb', hu', hshards'.trans hshards, rfl⟩

-- All tensors move, each of them once.
theorem Settled.move_tensors_to_host_spec (h : Settled w) {tensors : List TensorPtr}
    (hnodup : tensors.Nodup) (hfirst : ∀ t ∈ tensors, w.FirstLive t) :
    (∃ w', w.move_tensors_to_host runtime tensors = .ok w' ∧ Settled w' ∧
      Separated w tensors w' ∧ ∀ b rt, Own w b rt → ∃ rt', Own w' b rt') ∨
      ∃ fault, w.move_tensors_to_host runtime tensors = .error fault ∧ Refused fault := by
  induction tensors generalizing w with
  | nil => exact Or.inl ⟨w, rfl, h, fun t ht => absurd ht (List.not_mem_nil), fun b rt hb =>
      ⟨rt, hb⟩⟩
  | cons t tensors ih =>
      rw [List.nodup_cons] at hnodup
      obtain ⟨tensor, b, ht, hb⟩ := hfirst t List.mem_cons_self
      unfold World.move_tensors_to_host at ih ⊢
      rw [List.foldlM_cons]
      by_cases hfits : Fits runtime tensor
      · obtain ⟨w₁, hmove, hmoved⟩ := h.move_to_host_spec runtime ht hfits hb
        have hne : ∀ u ∈ tensors, u ≠ t := fun u hu hut => hnodup.1 (hut ▸ hu)
        rw [hmove]
        rcases ih hmoved.settled hnodup.2 fun u hu => hmoved.firstLive runtime h (hne u hu)
          (hfirst u (List.mem_cons_of_mem _ hu)) with ⟨w', hloop, hsettled, hsep, hkeep⟩ | hfault
        · refine Or.inl ⟨w', hloop, hsettled, fun u hu tensor₀ hu₀ c hc => ?_, fun c rt hown => ?_⟩
          · rcases List.mem_cons.mp hu with rfl | hu
            · obtain rfl := Option.some.inj (ht.symm.trans hu₀)
              obtain ⟨rt, hown⟩ := hmoved.own runtime hc
              exact hkeep c rt hown
            · obtain ⟨tensor', -, hu', -, hshards⟩ := hmoved.tensor_of_ref runtime h
                (h.ref_of_mem hu₀ hc) (hne u hu) hu₀
              exact hsep u hu tensor' hu' c (hshards ▸ hc)
          · obtain ⟨rt', hown'⟩ := hmoved.own_of_own runtime h ht hown
            exact hkeep c rt' hown'
        · exact Or.inr hfault
      · rw [move_to_host_unfit runtime ht hfits]
        exact Or.inr ⟨_, rfl, Or.inl rfl⟩

-- What one operation preserves.
theorem Settled.step (h : Settled w) {op : Op RT} (hvalid : Valid w op)
    (hfirst : FirstShards w op) :
    (∃ w', w.exec runtime op = .ok w' ∧ Settled w' ∧ Separated w (moves op) w') ∨
      ∃ fault, w.exec runtime op = .error fault ∧ Refused fault := by
  have hnone : ∀ w', Separated w [] w' := fun w' t ht => absurd ht (List.not_mem_nil)
  cases op with
  | create b => exact Or.inl ⟨_, rfl, h.create hvalid, hnone _⟩
  | from_runtime_tensor shards rt =>
      obtain ⟨w', hcall, hmade⟩ := h.from_runtime_tensor runtime hvalid rt
      refine Or.inl ⟨w', ?_, hmade.settled, hnone _⟩
      change Prod.fst <$> w.from_runtime_tensor runtime shards rt = _
      rw [hcall]
      rfl
  | from_pjrt_buffers shards mesh_shape strategy =>
      obtain ⟨hne, hlive⟩ := hvalid
      have hexec : w.exec runtime (.from_pjrt_buffers shards mesh_shape strategy) =
        Prod.fst <$> w.from_pjrt_buffers runtime shards mesh_shape strategy := rfl
      obtain ⟨front, hfront⟩ : ∃ front, shards.head? = some front := by
        cases shards with
        | nil => exact absurd rfl hne
        | cons b shards => exact ⟨b, rfl⟩
      by_cases hall : ∀ b ∈ shards, w.ref b = w.ref front
      · rw [hexec, from_pjrt_buffers_same runtime hlive hfront hall]
        cases hs : w.ref front with
        | none => exact Or.inr ⟨_, rfl, Or.inr (Or.inl rfl)⟩
        | some t => exact Or.inl ⟨w, rfl, h, hnone _⟩
      · rw [hexec, from_pjrt_buffers_new runtime hlive hfront hall]
        rcases h.rt_tensor_from_strategy runtime hlive hfront strategy mesh_shape with
          ⟨rt, hrt⟩ | ⟨fault, hrt, hrefused⟩
        · obtain ⟨w', hcall, hmade⟩ := h.from_runtime_tensor runtime hlive rt
          refine Or.inl ⟨w', ?_, hmade.settled, hnone _⟩
          rw [hrt]
          change Prod.fst <$> w.from_runtime_tensor runtime shards rt = _
          rw [hcall]
          rfl
        · rw [hrt]
          exact Or.inr ⟨fault, rfl, hrefused⟩
  | move_to_host t =>
      obtain ⟨tensor, b, ht, hb⟩ := hfirst
      unfold exec
      by_cases hfits : Fits runtime tensor
      · obtain ⟨w', hmove, hmoved⟩ := h.move_to_host_spec runtime ht hfits hb
        refine Or.inl ⟨w', hmove, hmoved.settled, fun u hu tensor' hu' c hc => ?_⟩
        rw [List.mem_singleton.mp hu, ht] at hu'
        cases hu'
        exact hmoved.own runtime hc
      · exact Or.inr ⟨_, move_to_host_unfit runtime ht hfits, Or.inl rfl⟩
  | move_tensors_to_host tensors =>
      obtain ⟨hnodup, hmem⟩ := hvalid
      rcases h.move_tensors_to_host_spec runtime hnodup fun t ht => hfirst t ((hmem t).mp ht) with
        ⟨w', hmove, hsettled, hsep, -⟩ | hfault
      · exact Or.inl ⟨w', hmove, hsettled, hsep⟩
      · exact Or.inr hfault
  | destroy b =>
      obtain ⟨w', hcall, hdestroyed⟩ := h.destroy_buffer hvalid
      exact Or.inl ⟨w', hcall, hdestroyed.settled, hnone _⟩

theorem Settled.init : Settled (World.init : World RT) where
  shards := fun hs => nomatch hs
  counted := fun hs => nomatch hs
  used := fun hs => nomatch hs
  referenced := fun hb => nomatch hb
  pooled := fun t => by simp [World.init]
  shard := fun hb => nomatch hb
  fresh := fun _ => rfl

def step (w : World RT) (op : Op RT) : Option (World RT) := (w.exec runtime op).toOption

-- In every run in which tensors move only while their first shards are not deleted, the
-- invariant holds, and each operation keeps it.
theorem ownership_of_firstShards
    (hreach : Reachable (step runtime) (fun w op => Valid w op ∧ FirstShards w op) init w) :
    Invariant w ∧ ∀ op, Valid w op → FirstShards w op → Keeps runtime w op := by
  have hsettled : Settled w := by
    refine hreach.invariant Settled Settled.init fun w op w' h hok hstep => ?_
    have hok' : w.exec runtime op = .ok w' := eq_ok_of_toOption hstep
    rcases h.step runtime hok.1 hok.2 with ⟨w'', hexec, hsettled, -⟩ | ⟨fault, hexec, -⟩
    · rw [hok'] at hexec
      cases hexec
      exact hsettled
    · rw [hok'] at hexec
      cases hexec
  refine ⟨hsettled.invariant, fun op hvalid hfirst => ?_⟩
  unfold Keeps
  rcases hsettled.step runtime hvalid hfirst with ⟨w', hexec, hsettled', hsep⟩ |
    ⟨fault, hexec, hrefused⟩
  · rw [hexec]
    exact ⟨hsettled'.invariant, hsep⟩
  · rw [hexec]
    exact hrefused

section Example

-- A runtime whose tensors are lists of values, one for each device.
def listRuntime : Runtime (List Nat) where
  toHost := fun rt => rt.map fun x => [x]
  setTensorRetain := fun rt _ => rt
  createMultiDeviceHostTensor := fun rts _ _ => rts.flatten

def after (w : World (List Nat)) (op : Op (List Nat)) : World (List Nat) :=
  (step listRuntime w op).getD w

-- Two buffers share a tensor, and the first one of them is destroyed.
def oneBuffer : World (List Nat) := init.after (.create 0)

def twoBuffers : World (List Nat) := oneBuffer.after (.create 1)

def twoShards : World (List Nat) := twoBuffers.after (.from_runtime_tensor [0, 1] [5, 7])

def firstDeleted : World (List Nat) := twoShards.after (.destroy 0)

theorem twoShards_live : ∀ b ∈ [0, 1], twoBuffers.Live b := by
  intro b hb
  rcases List.mem_cons.mp hb with rfl | hb
  · exact ⟨⟨none, none⟩, rfl⟩
  · obtain rfl := List.mem_singleton.mp hb
    exact ⟨⟨none, none⟩, rfl⟩

-- The tensor whose last shard gets a new one is destroyed while it moves.
theorem firstDeleted_not_keeps :
    ¬∀ w, Reachable (step listRuntime) Valid init w →
      Invariant w ∧ ∀ op, Valid w op → Keeps listRuntime w op := by
  intro h
  have hone : Reachable (step listRuntime) Valid init oneBuffer :=
    .next .start (fun hb => nomatch hb) (a := .create 0) rfl
  have htwo : Reachable (step listRuntime) Valid init twoBuffers :=
    .next hone (fun hb => nomatch hb) (a := .create 1) rfl
  have hshards : Reachable (step listRuntime) Valid init twoShards :=
    .next htwo twoShards_live (a := .from_runtime_tensor [0, 1] [5, 7]) rfl
  have hdeleted : Reachable (step listRuntime) Valid init firstDeleted :=
    .next hshards ⟨_, rfl⟩ (a := .destroy 0) rfl
  have hkeeps := (h firstDeleted hdeleted).2 (.move_to_host 0)
    (show 0 ∈ firstDeleted.m_tensors by decide)
  unfold Keeps at hkeeps
  rw [show exec listRuntime firstDeleted (.move_to_host 0) = .error .use_after_free from rfl]
    at hkeeps
  rcases hkeeps with hkeeps | hkeeps | hkeeps
  · cases hkeeps
  · cases hkeeps
  · cases hkeeps

theorem twoShards_keeps :
    Invariant twoShards ∧ Keeps listRuntime twoShards (.move_to_host 0) := by
  have hone : Reachable (step listRuntime) (fun w op => Valid w op ∧ FirstShards w op) init
      oneBuffer := .next .start ⟨fun hb => (nomatch hb), trivial⟩ (a := .create 0) rfl
  have htwo : Reachable (step listRuntime) (fun w op => Valid w op ∧ FirstShards w op) init
      twoBuffers := .next hone ⟨fun hb => (nomatch hb), trivial⟩ (a := .create 1) rfl
  have hshards : Reachable (step listRuntime) (fun w op => Valid w op ∧ FirstShards w op) init
      twoShards := .next htwo ⟨twoShards_live, trivial⟩
    (a := .from_runtime_tensor [0, 1] [5, 7]) rfl
  have h := ownership_of_firstShards listRuntime hshards
  exact ⟨h.1, h.2 (.move_to_host 0) (show 0 ∈ twoShards.m_tensors by decide)
    ⟨_, 0, rfl, rfl⟩⟩

end Example

end TTXla.PJRT.World
