import TTXla.PJRT.Tensor.Shards

-- Tensors that are made from a runtime tensor, and buffers that are destroyed.
namespace TTXla.PJRT.World

open Excepts

variable {RT : Type} (runtime : Runtime RT) {w : World RT} {t : TensorPtr} {b : BufferId}
  {shards : List BufferId}

-- Between two calls, only the buffers own tensors.
def Settled (w : World RT) : Prop := Owned (fun _ => 0) (fun _ => none) w

def Live (w : World RT) (b : BufferId) : Prop := ∃ r, w.buffers b = some r

theorem Frame.live_iff {n : TensorPtr} {moved : List BufferId} {w w' : World RT}
    (h : Frame n moved w w') (b : BufferId) : w'.Live b ↔ w.Live b := by
  unfold Live
  rw [← Option.isSome_iff_exists, ← Option.isSome_iff_exists, h.live b]

-- The tensor that is built, before its first shard is set.
def built (w : World RT) (shards : List BufferId) (rt : RT) : World RT where
  buffers := w.buffers
  tensors := Function.update w.tensors w.next_uid (some ⟨shards.map some, rt, 1⟩)
  m_tensors := Insert.insert w.next_uid w.m_tensors
  next_uid := w.next_uid + 1

theorem built_cases {rt : RT} {s : TensorPtr} {tensor : PjrtTensor RT}
    (hs : (w.built shards rt).tensors s = some tensor) :
    (s = w.next_uid ∧ tensor = ⟨shards.map some, rt, 1⟩) ∨
      (s ≠ w.next_uid ∧ w.tensors s = some tensor) := by
  unfold built at hs
  dsimp only at hs
  rw [Function.update_apply] at hs
  split at hs
  · exact Or.inl ⟨‹_›, (Option.some.inj hs).symm⟩
  · exact Or.inr ⟨‹_›, hs⟩

theorem Settled.built (h : Settled w) (shards : List BufferId) (rt : RT) :
    Owned (Function.update (fun _ => 0) w.next_uid 1)
      (Function.update (fun _ => none) w.next_uid (some 0)) (w.built shards rt) := by
  have hfresh : w.tensors w.next_uid = none := h.fresh (Nat.le_refl _)
  have href : ∀ b, w.ref b ≠ some w.next_uid := by
    intro b hb
    obtain ⟨tensor, ht⟩ := h.referenced hb
    rw [hfresh] at ht
    cases ht
  refine ⟨fun {s tensor} hs b => ?_, fun {s tensor} hs => ?_, fun hs => ?_, fun {b s} hb => ?_,
    fun s => ?_, h.shard, fun {s} hs => ?_⟩
  · rcases built_cases hs with ⟨rfl, rfl⟩ | ⟨hne, hs⟩
    · unfold attached
      rw [Function.update_self]
      exact (if_neg (href b)).symm
    · have hold := h.shards hs b
      unfold attached at hold ⊢
      rw [Function.update_of_ne hne]
      exact hold
  · rcases built_cases hs with ⟨rfl, rfl⟩ | ⟨hne, hs⟩
    · refine ⟨∅, fun b => ⟨fun hb => ?_, fun hb => absurd hb (href b)⟩, ?_⟩
      · exact absurd hb (Finset.notMem_empty b)
      · rw [Function.update_self]
        rfl
    · rw [Function.update_of_ne hne]
      exact h.counted hs
  · rcases built_cases hs with ⟨rfl, rfl⟩ | ⟨hne, hs⟩
    · exact Nat.one_pos
    · exact h.used hs
  · obtain ⟨tensor, hs⟩ := h.referenced hb
    refine ⟨tensor, ?_⟩
    unfold World.built
    dsimp only
    rw [Function.update_of_ne, hs]
    intro hst
    exact href b (hst ▸ hb)
  · unfold World.built
    dsimp only
    rw [Finset.mem_insert, h.pooled, Function.update_apply]
    split
    · rename_i hst
      exact ⟨fun _ => ⟨_, rfl⟩, fun _ => Or.inl hst⟩
    · rename_i hst
      exact ⟨fun hor => hor.resolve_left hst, Or.inr⟩
  · unfold World.built at hs ⊢
    dsimp only at hs ⊢
    rw [Function.update_of_ne (Nat.ne_of_gt (Nat.lt_of_succ_le hs))]
    exact h.fresh (Nat.le_of_succ_le hs)

-- Each shard of the tensor that is built is set in turn.
theorem Owned.set_shards_spec {locals : TensorPtr → Nat} {cut : TensorPtr → Option Nat}
    (h : Owned locals cut w) {tensor : PjrtTensor RT} (ht : w.tensors t = some tensor) {i : Nat}
    (hcut : cut t = some i) (hrest : tensor.m_shards.drop i = shards.map some)
    (hlive : ∀ b ∈ shards, w.Live b) {n : TensorPtr} (hwhole : Whole n cut) (hn : n ≤ t) :
    ∃ w' tensor', w.set_shards t (List.range' i shards.length) = .ok w' ∧
      Owned locals (Function.update cut t (some (i + shards.length))) w' ∧
      Frame n shards w w' ∧ (∀ b ∈ shards, w'.ref b = some t) ∧ w'.next_uid = w.next_uid ∧
      w'.tensors t = some tensor' ∧ tensor'.m_runtime_tensor = tensor.m_runtime_tensor ∧
      tensor'.m_shards.length = tensor.m_shards.length ∧
      (shards.Nodup → (∀ b ∈ shards, w.ref b ≠ some t) → tensor'.m_shards = tensor.m_shards) := by
  induction shards generalizing w tensor cut i with
  | nil =>
      have hcut' : Function.update cut t (some (i + ([] : List BufferId).length)) = cut := by
        rw [List.length_nil, Nat.add_zero, ← hcut, Function.update_eq_self]
      rw [hcut']
      exact ⟨w, tensor, rfl, h, Frame.refl n w, by simp, rfl, ht, rfl, rfl, fun _ _ => rfl⟩
  | cons b shards ih =>
      have hi : tensor.m_shards[i]? = some (some b) := by
        rw [← List.head?_drop, hrest]
        rfl
      obtain ⟨r, hb⟩ := hlive b List.mem_cons_self
      obtain ⟨w₁, tensor₁, hset, h₁, hframe₁, hgrown⟩ :=
        h.setPjrtTensor_spec ht hb hcut hi hwhole hn
      have hwhole₁ : Whole n (Function.update cut t (some (i + 1))) := by
        intro s hs
        rw [Function.update_of_ne (Nat.ne_of_lt (Nat.lt_of_lt_of_le hs hn))]
        exact hwhole s hs
      have hrest₁ : tensor₁.m_shards.drop (i + 1) = shards.map some := by
        rw [← List.drop_drop, hgrown.rest, hrest]
        rfl
      obtain ⟨w', tensor', hloop, howned, hframe, href, huid, ht', hrt, hlen, hsame⟩ :=
        ih h₁ hgrown.built (Function.update_self ..) hrest₁
          (fun c hc => (hframe₁.live_iff c).mpr (hlive c (List.mem_cons_of_mem _ hc))) hwhole₁
      refine ⟨w', tensor', ?_, ?_, Frame.trans hframe₁ hframe, fun c hc => ?_,
        huid.trans hgrown.next_uid, ht', hrt.trans hgrown.runtime_tensor,
        hlen.trans hgrown.length, fun hnodup hout => ?_⟩
      · unfold set_shards at hloop ⊢
        rw [List.length_cons, List.range'_succ, List.foldlM_cons, deref_eq ht]
        have hget : get (tensor.m_shards[i]?.getD none) Fault.null_dereference = .ok b := by
          rw [hi]
          rfl
        change ((get (tensor.m_shards[i]?.getD none) _ >>= _) >>= _) = _
        rw [hget]
        change (w.setPjrtTensor b t >>= _) = _
        rw [hset]
        exact hloop
      · rw [Function.update_idem] at howned
        rw [List.length_cons, Nat.add_comm shards.length 1, ← Nat.add_assoc]
        exact howned
      · by_cases hmem : c ∈ shards
        · exact href c hmem
        · obtain rfl := (List.mem_cons.mp hc).resolve_right hmem
          rw [hframe.ref c hmem, hgrown.ref]
      · rw [List.nodup_cons] at hnodup
        rw [hsame hnodup.2, hgrown.same (hout b List.mem_cons_self)]
        intro c hc
        have hcb : c ≠ b := fun hcb => hnodup.1 (hcb ▸ hc)
        rw [hframe₁.ref c (by simpa using hcb)]
        exact hout c (List.mem_cons_of_mem _ hc)

-- The tensor that a call makes, and what it leaves of the others.
structure Made (n : TensorPtr) (shards : List BufferId) (rt : RT) (w w' : World RT) : Prop where
  settled : Settled w'
  frame : Frame n shards w w'
  ref : ∀ b ∈ shards, w'.ref b = some n
  next_uid : w'.next_uid = n + 1
  made : shards ≠ [] → ∃ tensor, w'.tensors n = some tensor ∧ tensor.m_runtime_tensor = rt ∧
    tensor.m_shards.length = shards.length ∧ (shards.Nodup → tensor.m_shards = shards.map some)

theorem Settled.from_runtime_tensor (h : Settled w) (hlive : ∀ b ∈ shards, w.Live b) (rt : RT) :
    ∃ w', w.from_runtime_tensor runtime shards rt = .ok (w', w.next_uid) ∧
      Made w.next_uid shards (runtime.setTensorRetain rt true) w w' := by
  have hfresh : w.next_uid ∉ w.m_tensors := by
    rw [h.pooled, h.fresh (Nat.le_refl _)]
    intro hex
    obtain ⟨tensor, ht⟩ := hex
    cases ht
  have hbuilt := h.built shards (runtime.setTensorRetain rt true)
  have ht : (w.built shards (runtime.setTensorRetain rt true)).tensors w.next_uid =
      some ⟨shards.map some, runtime.setTensorRetain rt true, 1⟩ := Function.update_self ..
  obtain ⟨w₁, tensor₁, hloop, h₁, hframe₁, href₁, huid₁, ht₁, hrt₁, hlen₁, hsame₁⟩ :=
    hbuilt.set_shards_spec ht (Function.update_self ..) rfl hlive
      (fun s hs => Function.update_of_ne (Nat.ne_of_lt hs) ..) (Nat.le_refl _)
  have hrelease := h₁.release_eq ht₁
  have hreleased := h₁.release ht₁ (by rw [Function.update_self]; exact Nat.one_pos)
  have hframe : Frame w.next_uid shards w (w₁.dropped w.next_uid tensor₁) := by
    refine ⟨fun b hb => ?_, fun b => ?_, fun {s tensor'} hs hs' => ?_⟩
    · rw [dropped_ref, hframe₁.ref b hb]
      rfl
    · rw [dropped_buffers, hframe₁.live b]
      rfl
    · rcases dropped_cases hs' with ⟨rfl, -, -⟩ | ⟨-, hs'⟩
      · exact absurd hs (Nat.lt_irrefl _)
      · obtain ⟨tensor, hs'', hrt, hshards⟩ := hframe₁.kept hs hs'
        rcases built_cases hs'' with ⟨rfl, -⟩ | ⟨-, hs''⟩
        · exact absurd hs (Nat.lt_irrefl _)
        · exact ⟨tensor, hs'', hrt, hshards⟩
  have hsettled : Settled (w₁.dropped w.next_uid tensor₁) := by
    refine hreleased.congr (fun s => ?_) fun {s tensor} hs => ?_
    · by_cases hst : s = w.next_uid
      · subst hst
        simp
      · simp [hst]
    · unfold attached
      rcases dropped_cases hs with ⟨rfl, -, rfl⟩ | ⟨hne, hs⟩
      · rw [Function.update_self]
        refine (List.take_of_length_le ?_).symm
        dsimp only
        rw [hlen₁, List.length_map, Nat.zero_add]
      · rw [Function.update_of_ne hne, Function.update_of_ne hne]
  refine ⟨w₁.dropped w.next_uid tensor₁, ?_, hsettled, hframe, fun b hb => ?_, ?_, fun hne => ?_⟩
  · unfold World.from_runtime_tensor World.insert
    dsimp only
    rw [ensure_of hfresh]
    change (World.set_shards (w.built shards _) _ _ >>= _) = _
    rw [List.range_eq_range', hloop]
    change (w₁.release _ >>= _) = _
    rw [hrelease]
    rfl
  · rw [dropped_ref, href₁ b hb]
  · rw [dropped_next_uid, huid₁]
    rfl
  · obtain ⟨b, hb⟩ := List.exists_mem_of_ne_nil shards hne
    obtain ⟨tensor, hs⟩ := hsettled.referenced (t := w.next_uid) (by
      rw [dropped_ref, href₁ b hb])
    rcases dropped_cases hs with ⟨-, -, rfl⟩ | ⟨hself, -⟩
    · refine ⟨_, hs, hrt₁, ?_, fun hnodup => ?_⟩
      · dsimp only
        rw [hlen₁, List.length_map]
      · refine hsame₁ hnodup fun c _ hc => ?_
        obtain ⟨tensor, ht⟩ := h.referenced (show w.ref c = some w.next_uid from hc)
        rw [h.fresh (Nat.le_refl _)] at ht
        cases ht
    · exact absurd rfl hself

end TTXla.PJRT.World
