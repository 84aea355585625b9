import TTXla.PJRT.Tensor.Construction
import Mathlib.Data.List.ReduceOption

-- Moving tensors to the host.
namespace TTXla.PJRT.World

open Excepts

variable {RT : Type} (runtime : Runtime RT) {w : World RT} {t : TensorPtr}
  {tensor : PjrtTensor RT} {b : BufferId}

section Lists

variable {α : Type*} [BEq α] [LawfulBEq α] {l : List α} {a : α}

theorem index_unique (h : l.count a ≤ 1) {i j : Nat} (hi : l[i]? = some a)
    (hj : l[j]? = some a) : i = j := by
  induction l generalizing i j with
  | nil => cases hi
  | cons x l ih =>
      have hzero : ∀ {k : Nat}, x = a → (x :: l)[k]? = some a → k = 0 := by
        intro k hx hk
        cases k with
        | zero => rfl
        | succ k =>
            subst hx
            rw [List.count_cons_self] at h
            rw [List.getElem?_cons_succ] at hk
            have hpos := List.count_pos_iff.mpr (List.mem_of_getElem? hk)
            omega
      cases i with
      | zero => exact (hzero (Option.some.inj hi) hj).symm
      | succ i =>
          cases j with
          | zero => exact hzero (Option.some.inj hj) hi
          | succ j =>
              have hle : l.count a ≤ 1 := Nat.le_trans List.count_le_count_cons h
              exact congrArg Nat.succ (ih hle hi hj)

theorem notMem_drop (h : l.count a ≤ 1) {i j : Nat} (hi : l[i]? = some a) (hij : i < j) :
    a ∉ l.drop j := by
  intro hmem
  obtain ⟨k, hk⟩ := List.mem_iff_getElem?.mp hmem
  rw [List.getElem?_drop] at hk
  have := index_unique h hi hk
  omega

end Lists

theorem map_without_of_notMem {l : List (Option BufferId)} {moved : List BufferId}
    (h : ∀ b ∈ moved, some b ∉ l) : l.map (without moved) = l := by
  rw [List.map_congr_left, List.map_id']
  intro x hx
  cases x with
  | none => rfl
  | some c =>
      have hc : c ∉ moved := fun hc => h c hc hx
      simp [without, hc]

theorem Frame.mono {n n' : TensorPtr} {moved : List BufferId} {w w' : World RT} (hn : n ≤ n')
    (h : Frame n' moved w w') : Frame n moved w w' where
  ref := h.ref
  live := h.live
  kept := fun ht ht' => h.kept (Nat.lt_of_lt_of_le ht hn) ht'

theorem Settled.count_le (h : Settled w) (ht : w.tensors t = some tensor) (b : BufferId) :
    tensor.m_shards.count (some b) ≤ 1 := by
  have hcount : tensor.m_shards.count (some b) = if w.ref b = some t then 1 else 0 :=
    h.shards ht b
  split at hcount <;> omega

theorem Settled.ref_of_mem (h : Settled w) (ht : w.tensors t = some tensor)
    (hb : some b ∈ tensor.m_shards) : w.ref b = some t := by
  have hcount : tensor.m_shards.count (some b) = if w.ref b = some t then 1 else 0 :=
    h.shards ht b
  have hpos := List.count_pos_iff.mpr hb
  split at hcount
  · assumption
  · omega

theorem Settled.lt_next_uid (h : Settled w) (ht : w.tensors t = some tensor) :
    t < w.next_uid := by
  by_contra hge
  rw [h.fresh (Nat.le_of_not_lt hge)] at ht
  cases ht

theorem live_of_ref (hb : w.ref b = some t) : w.Live b := by
  unfold ref at hb
  obtain ⟨r, hr, -⟩ := Option.bind_eq_some_iff.mp hb
  exact ⟨r, hr⟩

-- A tensor with the same shards, or with fewer null pointers.
theorem Settled.set_tensor (h : Settled w) (ht : w.tensors t = some tensor)
    {tensor' : PjrtTensor RT}
    (hcount : ∀ b, tensor'.m_shards.count (some b) = tensor.m_shards.count (some b))
    (huse : tensor'.use_count = tensor.use_count) : Settled (w.set_tensor t tensor') where
  shards := fun hs b => by
    rcases set_tensor_cases hs with ⟨rfl, rfl⟩ | ⟨-, hs⟩
    · exact (hcount b).trans (h.shards ht b)
    · exact h.shards hs b
  counted := fun hs => by
    rcases set_tensor_cases hs with ⟨rfl, rfl⟩ | ⟨-, hs⟩
    · rw [huse]
      exact h.counted ht
    · exact h.counted hs
  used := fun hs => by
    rcases set_tensor_cases hs with ⟨-, rfl⟩ | ⟨-, hs⟩
    · rw [huse]
      exact h.used ht
    · exact h.used hs
  referenced := fun hb => by
    obtain ⟨tensor', hs⟩ := h.referenced hb
    rw [set_tensor_tensors]
    split
    · exact ⟨_, rfl⟩
    · exact ⟨tensor', hs⟩
  pooled := fun s => by
    rw [set_tensor_pool, h.pooled s, set_tensor_tensors]
    split
    · rename_i hst
      subst hst
      exact ⟨fun _ => ⟨_, rfl⟩, fun _ => ⟨tensor, ht⟩⟩
    · exact Iff.rfl
  shard := h.shard
  fresh := fun {s} hs => by
    have hst : s ≠ t := by
      intro hst
      exact absurd (h.lt_next_uid ht) (Nat.not_lt.mpr (hst ▸ hs))
    rw [set_tensor_tensors, if_neg hst]
    exact h.fresh hs

-- A buffer has a tensor of its own.
def Own (w : World RT) (b : BufferId) (rt : RT) : Prop :=
  ∃ t tensor, w.ref b = some t ∧ w.tensors t = some tensor ∧ tensor.m_shards = [some b] ∧
    tensor.m_runtime_tensor = rt

theorem Own.frame {w' : World RT} {rt : RT} (h : Own w b rt) (hw : Settled w) (hw' : Settled w')
    {n : TensorPtr} {moved : List BufferId} (hframe : Frame n moved w w') (hn : w.next_uid ≤ n)
    (hb : b ∉ moved) : Own w' b rt := by
  obtain ⟨t, tensor, href, ht, hshards, hrt⟩ := h
  have href' : w'.ref b = some t := (hframe.ref b hb).trans href
  obtain ⟨tensor', ht'⟩ := hw'.referenced href'
  obtain ⟨tensor'', ht'', hrt', hshards'⟩ :=
    hframe.kept (Nat.lt_of_lt_of_le (hw.lt_next_uid ht) hn) ht'
  obtain rfl := Option.some.inj (ht.symm.trans ht'')
  refine ⟨t, tensor', href', ht', ?_, hrt'.trans hrt⟩
  rw [hshards', hshards]
  simp [without, hb]

theorem Made.own {n : TensorPtr} {rt : RT} {w' : World RT} (h : Made n [b] rt w w') :
    Own w' b rt := by
  obtain ⟨tensor, ht, hrt, -, hshards⟩ := h.made (List.cons_ne_nil _ _)
  exact ⟨n, tensor, h.ref b List.mem_cons_self, ht, hshards (List.nodup_singleton b), hrt⟩

-- The runtime tensor that shard `j` gets.
def host (tensors : List RT) (first : RT) (j : Nat) : RT :=
  runtime.setTensorRetain (if tensors.length = 1 then first else tensors.getD j first) true

theorem move_shard_eq (ht : w.tensors t = some tensor) {tensors : List RT} {i : Nat}
    (hi : tensor.m_shards[i]? = some (some b)) (hlen : tensors.length = 1 ∨ i < tensors.length) :
    ∃ rt, runtime.setTensorRetain rt true = host runtime tensors tensor.m_runtime_tensor i ∧
      w.move_shard runtime t tensors i =
        (do let (w, _) ← w.from_runtime_tensor runtime [b] rt; return w) := by
  unfold move_shard host
  rw [deref_eq ht]
  by_cases hone : tensors.length = 1
  · refine ⟨tensor.m_runtime_tensor, by rw [if_pos hone], ?_⟩
    change ((get tensor.m_shards[i]? _ : Except Fault _) >>= _) = _
    rw [hi]
    change (if tensors.length = 1 then _ else _) = _
    rw [if_pos hone]
    rfl
  · have hlt : i < tensors.length := hlen.resolve_left hone
    refine ⟨tensors[i], ?_, ?_⟩
    · rw [if_neg hone, List.getD_eq_getElem?_getD, List.getElem?_eq_getElem hlt,
        Option.getD_some]
    · change ((get tensor.m_shards[i]? _ : Except Fault _) >>= _) = _
      rw [hi]
      change (if tensors.length = 1 then _ else _) = _
      rw [if_neg hone, List.getElem?_eq_getElem hlt]
      rfl

theorem move_shard_none (ht : w.tensors t = some tensor) {i : Nat}
    (hi : tensor.m_shards[i]? = some none) (tensors : List RT) :
    w.move_shard runtime t tensors i = .ok w := by
  unfold move_shard
  rw [deref_eq ht]
  change ((get tensor.m_shards[i]? _ : Except Fault _) >>= _) = _
  rw [hi]
  rfl

-- The shards from position `i` on that are not deleted.
def rest (i : Nat) (tensor : PjrtTensor RT) : List BufferId :=
  (tensor.m_shards.drop i).reduceOption

theorem mem_rest {i : Nat} : b ∈ rest i tensor ↔ some b ∈ tensor.m_shards.drop i :=
  List.reduceOption_mem_iff

theorem rest_none {i : Nat} (hi : tensor.m_shards[i]? = some none) :
    rest i tensor = rest (i + 1) tensor := by
  unfold rest
  obtain ⟨hlt, hi⟩ := List.getElem?_eq_some_iff.mp hi
  rw [List.drop_eq_getElem_cons hlt, hi, List.reduceOption_cons_of_none]

theorem rest_some {i : Nat} (hi : tensor.m_shards[i]? = some (some b)) :
    rest i tensor = b :: rest (i + 1) tensor := by
  unfold rest
  obtain ⟨hlt, hi⟩ := List.getElem?_eq_some_iff.mp hi
  rw [List.drop_eq_getElem_cons hlt, hi, List.reduceOption_cons_of_some]

-- A tensor keeps its shards but the ones that move, as long as one stays.
theorem Settled.kept {w' : World RT} (h : Settled w) (h' : Settled w') {n : TensorPtr}
    {moved : List BufferId} (hframe : Frame n moved w w') (hn : w.next_uid ≤ n)
    (ht : w.tensors t = some tensor) (hb : w.ref b = some t) (hout : b ∉ moved) :
    ∃ tensor', w'.tensors t = some tensor' ∧
      tensor'.m_runtime_tensor = tensor.m_runtime_tensor ∧
      tensor'.m_shards = tensor.m_shards.map (without moved) := by
  obtain ⟨tensor', ht'⟩ := h'.referenced ((hframe.ref b hout).trans hb)
  obtain ⟨tensor'', ht'', hrt, hshards⟩ :=
    hframe.kept (Nat.lt_of_lt_of_le (h.lt_next_uid ht) hn) ht'
  obtain rfl := Option.some.inj (ht.symm.trans ht'')
  exact ⟨tensor', ht', hrt, hshards⟩

-- While the first shard stays, the others get tensors of their own, one by one.
theorem Settled.move_shards_spec (h : Settled w) (ht : w.tensors t = some tensor)
    (hfirst : tensor.m_shards[0]? = some (some b)) {tensors : List RT}
    (hlen : tensors.length = 1 ∨ tensors.length = tensor.m_shards.length) {i k : Nat}
    (hi : 0 < i) (hk : i + k = tensor.m_shards.length) :
    ∃ w', (List.range' i k).foldlM (fun w i => w.move_shard runtime t tensors i) w = .ok w' ∧
      Settled w' ∧ Frame w.next_uid (rest i tensor) w w' ∧ w.next_uid ≤ w'.next_uid ∧
      ∀ (j : Nat) (c : BufferId), i ≤ j → tensor.m_shards[j]? = some (some c) →
        Own w' c (host runtime tensors tensor.m_runtime_tensor j) := by
  induction k generalizing w tensor i with
  | zero =>
      have hrest : rest i tensor = [] := by
        unfold rest
        rw [List.drop_of_length_le (by omega)]
        rfl
      refine ⟨w, rfl, h, hrest ▸ Frame.refl _ w, Nat.le_refl _, fun j c hj hc => ?_⟩
      have := (List.getElem?_eq_some_iff.mp hc).1
      omega
  | succ k ih =>
      have hlt : i < tensor.m_shards.length := by omega
      rw [List.range'_succ, List.foldlM_cons]
      cases hx : tensor.m_shards[i] with
      | none =>
          have hi' : tensor.m_shards[i]? = some none := by rw [List.getElem?_eq_getElem hlt, hx]
          obtain ⟨w', hloop, hsettled, hframe, huid, hown⟩ :=
            ih h ht hfirst hlen (Nat.succ_pos i) (by omega)
          rw [move_shard_none runtime ht hi', rest_none hi']
          refine ⟨w', hloop, hsettled, hframe, huid, fun j c hj hc => ?_⟩
          apply hown j c _ hc
          have hne : i ≠ j := by
            intro hij
            rw [hij, hc] at hi'
            cases hi'
          omega
      | some c =>
          have hi' : tensor.m_shards[i]? = some (some c) := by
            rw [List.getElem?_eq_getElem hlt, hx]
          have hcb : b ≠ c := by
            intro hbc
            have := index_unique (h.count_le ht c) hi' (hbc ▸ hfirst)
            omega
          have hout : some c ∉ tensor.m_shards.drop (i + 1) :=
            notMem_drop (h.count_le ht c) hi' (Nat.lt_succ_self i)
          have hlive : w.Live c := live_of_ref (h.ref_of_mem ht (List.mem_of_getElem? hi'))
          have hsize : tensors.length = 1 ∨ i < tensors.length := by omega
          obtain ⟨rt, hrt, hmove⟩ := move_shard_eq runtime ht hi' hsize
          obtain ⟨w₁, hcall, hmade⟩ := h.from_runtime_tensor runtime
            (List.forall_mem_singleton.mpr hlive) rt
          obtain ⟨tensor₁, ht₁, hrt₁, hshards₁⟩ := h.kept hmade.settled hmade.frame
            (Nat.le_refl _) ht (h.ref_of_mem ht (List.mem_of_getElem? hfirst))
            (by simpa using hcb)
          have hlen₁ : tensor₁.m_shards.length = tensor.m_shards.length := by
            rw [hshards₁, List.length_map]
          have hrest₁ : rest (i + 1) tensor₁ = rest (i + 1) tensor := by
            unfold rest
            rw [hshards₁, ← List.map_drop, map_without_of_notMem]
            intro c' hc'
            rw [List.mem_singleton.mp hc']
            exact hout
          have hget₁ : ∀ (j : Nat) (c' : BufferId), c' ≠ c → tensor.m_shards[j]? = some (some c') →
              tensor₁.m_shards[j]? = some (some c') := by
            intro j c' hne hj
            rw [hshards₁, List.getElem?_map, hj]
            simp [without, hne]
          obtain ⟨w', hloop, hsettled, hframe, huid, hown⟩ := ih hmade.settled ht₁
            (hget₁ 0 b hcb hfirst) (by omega) (Nat.succ_pos i) (by omega)
          have hle : w.next_uid ≤ w₁.next_uid := by
            rw [hmade.next_uid]
            exact Nat.le_succ _
          rw [hrest₁] at hframe
          rw [rest_some hi', hmove, hcall]
          refine ⟨w', hloop, hsettled, Frame.trans hmade.frame (hframe.mono hle),
            Nat.le_trans hle huid, fun j c' hj hc' => ?_⟩
          by_cases hij : i = j
          · subst hij
            obtain rfl := Option.some.inj (Option.some.inj (hi'.symm.trans hc'))
            rw [← hrt]
            exact hmade.own.frame hmade.settled hsettled hframe (Nat.le_refl _)
              (mem_rest.not.mpr hout)
          · have hne : c' ≠ c := by
              intro hcc
              exact hij (index_unique (h.count_le ht c) hi' (hcc ▸ hc'))
            rw [← hrt₁]
            exact hown j c' (by omega) (hget₁ j c' hne hc')

-- The first shard of a tensor is not deleted.
def FirstLive (w : World RT) (t : TensorPtr) : Prop :=
  ∃ tensor b, w.tensors t = some tensor ∧ tensor.m_shards[0]? = some (some b)

-- The runtime returns a tensor for each shard, or one for all of them.
def Fits (tensor : PjrtTensor RT) : Prop :=
  (runtime.toHost tensor.m_runtime_tensor).length = tensor.m_shards.length ∨
    (runtime.toHost tensor.m_runtime_tensor).length = 1

-- After a move every shard has its own tensor, and the other tensors are as before.
structure MovedToHost (t : TensorPtr) (tensor : PjrtTensor RT) (w w' : World RT) : Prop where
  settled : Settled w'
  next_uid : w.next_uid ≤ w'.next_uid
  first : ∀ b, tensor.m_shards[0]? = some (some b) → ∃ rt,
    (runtime.toHost tensor.m_runtime_tensor)[0]? = some rt ∧ Own w' b rt
  others : ∀ (j : Nat) (b : BufferId), 0 < j → tensor.m_shards[j]? = some (some b) → ∃ rt,
    (runtime.toHost tensor.m_runtime_tensor)[0]? = some rt ∧
      Own w' b (host runtime (runtime.toHost tensor.m_runtime_tensor) rt j)
  ref : ∀ b, w.ref b ≠ some t → w'.ref b = w.ref b
  live : ∀ b, w'.Live b ↔ w.Live b
  kept : ∀ {u tensor'}, u ≠ t → u < w.next_uid → w'.tensors u = some tensor' → ∃ tensor₀,
    w.tensors u = some tensor₀ ∧ tensor'.m_runtime_tensor = tensor₀.m_runtime_tensor ∧
      tensor'.m_shards = tensor₀.m_shards

theorem map_without_rest {x : Option BufferId} {l : List (Option BufferId)} {c : BufferId}
    (hx : x = some b) (hb : some b ∉ l) :
    ((x :: l).map (without l.reduceOption)).count (some c) = [x].count (some c) := by
  have hnone : (l.map (without l.reduceOption)).count (some c) = 0 := by
    apply List.count_eq_zero.mpr
    intro hmem
    obtain ⟨y, hy, hyc⟩ := List.mem_map.mp hmem
    cases y with
    | none => cases hyc
    | some d =>
        have hd : d ∈ l.reduceOption := List.reduceOption_mem_iff.mpr hy
        simp [without, hd] at hyc
  have hb' : b ∉ l.reduceOption := List.reduceOption_mem_iff.not.mpr hb
  have hkeep : without l.reduceOption (some b) = some b := by simp [without, hb']
  rw [List.map_cons, hx, hkeep, List.count_cons, hnone, List.count_singleton, Nat.zero_add]

theorem Settled.move_to_host_spec (h : Settled w) (ht : w.tensors t = some tensor)
    (hfits : Fits runtime tensor) (hfirst : tensor.m_shards[0]? = some (some b)) :
    ∃ w', w.move_to_host runtime t = .ok w' ∧ MovedToHost runtime t tensor w w' := by
  obtain ⟨hpos, -⟩ := List.getElem?_eq_some_iff.mp hfirst
  obtain ⟨first, hget⟩ : ∃ first, (runtime.toHost tensor.m_runtime_tensor)[0]? = some first := by
    have hlen : 0 < (runtime.toHost tensor.m_runtime_tensor).length := by
      rcases hfits with hfits | hfits <;> omega
    exact ⟨_, List.getElem?_eq_getElem hlen⟩
  have h₀ : Settled (w.set_tensor t { tensor with m_runtime_tensor := first }) :=
    h.set_tensor ht (fun _ => rfl) rfl
  obtain ⟨w₁, hloop, h₁, hframe₁, huid₁, hown₁⟩ := h₀.move_shards_spec runtime
    (set_tensor_self w t _) hfirst hfits.symm Nat.one_pos (Nat.add_sub_cancel' hpos)
  have hnext : some b ∉ tensor.m_shards.drop 1 :=
    notMem_drop (h.count_le ht b) hfirst Nat.one_pos
  have hb₀ : w.ref b = some t := h.ref_of_mem ht (List.mem_of_getElem? hfirst)
  obtain ⟨tensor₁, ht₁, hrt₁, hshards₁⟩ := h₀.kept h₁ hframe₁ (Nat.le_refl _)
    (set_tensor_self w t _) hb₀ (mem_rest.not.mpr hnext)
  have hmoved : ∀ c ∈ rest 1 tensor, w.ref c = some t := by
    intro c hc
    exact h.ref_of_mem ht (List.mem_of_mem_drop (mem_rest.mp hc))
  obtain ⟨l, hl⟩ : ∃ l, tensor.m_shards = some b :: l := by
    cases hshards : tensor.m_shards with
    | nil =>
        rw [hshards] at hpos
        cases hpos
    | cons x l =>
        rw [hshards, List.getElem?_cons_zero, Option.some.injEq] at hfirst
        exact ⟨l, by rw [hfirst]⟩
  have hrest : rest 1 { tensor with m_runtime_tensor := first } = l.reduceOption := by
    unfold rest
    dsimp only
    rw [hl]
    rfl
  have hbl : some b ∉ l := by
    rw [hl] at hnext
    exact hnext
  rw [hrest] at hshards₁
  dsimp only at hshards₁
  rw [hl] at hshards₁
  have hhead : tensor₁.m_shards.headD none = some b := by
    have hb' : b ∉ l.reduceOption := List.reduceOption_mem_iff.not.mpr hbl
    rw [hshards₁]
    simp [without, hb']
  have hcount : ∀ c, [tensor₁.m_shards.headD none].count (some c) =
      tensor₁.m_shards.count (some c) := by
    intro c
    rw [hhead, hshards₁, map_without_rest rfl hbl]
  refine ⟨w₁.set_tensor t { tensor₁ with m_shards := [tensor₁.m_shards.headD none] }, ?_,
    h₁.set_tensor ht₁ hcount rfl, huid₁, fun b' hb' => ?_, fun j c hj hc => ?_, fun c hc => ?_,
    fun c => ?_, fun {u tensor'} hu hlt hu' => ?_⟩
  · unfold move_to_host
    rw [deref_eq ht]
    change (ensure _ _ >>= _) = _
    rw [ensure_of (show _ ∨ _ from hfits)]
    change ((get (runtime.toHost tensor.m_runtime_tensor)[0]? _ : Except Fault RT) >>= _) = _
    rw [hget]
    change ((List.foldlM _ (w.set_tensor t _) _ : Except Fault (World RT)) >>= _) = _
    rw [hloop]
    change (w₁.deref t >>= _) = _
    rw [deref_eq ht₁]
    rfl
  · obtain rfl := Option.some.inj (Option.some.inj (hfirst.symm.trans hb'))
    refine ⟨first, hget, t, _, ?_, set_tensor_self .., congrArg (fun x => [x]) hhead, hrt₁⟩
    rw [set_tensor_ref, hframe₁.ref b (mem_rest.not.mpr hnext)]
    exact hb₀
  · obtain ⟨u, tensor', href, hu, hshards, hrt⟩ := hown₁ j c hj hc
    refine ⟨first, hget, u, tensor', href, ?_, hshards, hrt⟩
    rw [set_tensor_tensors, if_neg, hu]
    intro hut
    -- the tensor that moves has its first shard, and not this one
    subst hut
    obtain rfl := Option.some.inj (ht₁.symm.trans hu)
    rw [hshards] at hhead
    obtain rfl : c = b := Option.some.inj hhead
    have := index_unique (h.count_le ht c) hfirst hc
    omega
  · rw [set_tensor_ref, hframe₁.ref c]
    · rfl
    · intro hmem
      exact hc (hmoved c hmem)
  · exact hframe₁.live_iff c
  · rw [set_tensor_tensors, if_neg hu] at hu'
    obtain ⟨tensor₀, hu₀, hrt₀, hshards₀⟩ := hframe₁.kept hlt hu'
    rw [set_tensor_tensors, if_neg hu] at hu₀
    refine ⟨tensor₀, hu₀, hrt₀, ?_⟩
    rw [hshards₀, map_without_of_notMem]
    intro c hc hmem
    exact hu (Option.some.inj ((h.ref_of_mem hu₀ hmem).symm.trans (hmoved c hc)))

-- A destroyed tensor stays destroyed, and the loop does not get past its next shard.
theorem move_shards_gone (ht : w.tensors t = none) (tensors : List RT) (is : List Nat) :
    (is.foldlM (fun w i => w.move_shard runtime t tensors i) w >>= fun w => w.deref t) =
      .error .use_after_free := by
  cases is with
  | nil =>
      change get (w.tensors t) _ = _
      rw [ht]
      rfl
  | cons i is =>
      rw [List.foldlM_cons]
      unfold move_shard deref
      rw [ht]
      rfl

-- Without its first shard, the tensor is destroyed when its last shard leaves.
theorem Settled.move_shards_fault (h : Settled w) (ht : w.tensors t = some tensor)
    {tensors : List RT}
    (hlen : tensors.length = 1 ∨ tensors.length = tensor.m_shards.length) {i k : Nat}
    (hdead : ∀ j < i, tensor.m_shards[j]? = some none) (hk : i + k = tensor.m_shards.length) :
    ((List.range' i k).foldlM (fun w i => w.move_shard runtime t tensors i) w >>=
      fun w => w.deref t) = .error .use_after_free := by
  induction k generalizing w tensor i with
  | zero =>
      -- some buffer refers to the tensor
      obtain ⟨owners, howners, hcount⟩ := h.counted ht
      have hused := h.used ht
      obtain ⟨b, hb⟩ : owners.Nonempty := Finset.card_pos.mp (by omega)
      have hmem := h.mem_attached ht ((howners b).mp hb)
      obtain ⟨j, hj⟩ := List.mem_iff_getElem?.mp hmem
      have hlt := (List.getElem?_eq_some_iff.mp hj).1
      change j < tensor.m_shards.length at hlt
      change tensor.m_shards[j]? = some (some b) at hj
      rw [hdead j (by omega)] at hj
      cases hj
  | succ k ih =>
      have hlt : i < tensor.m_shards.length := by omega
      rw [List.range'_succ, List.foldlM_cons]
      cases hx : tensor.m_shards[i] with
      | none =>
          have hi' : tensor.m_shards[i]? = some none := by rw [List.getElem?_eq_getElem hlt, hx]
          rw [move_shard_none runtime ht hi']
          refine ih h ht hlen (fun j hj => ?_) (by omega)
          by_cases hji : j = i
          · rw [hji, hi']
          · exact hdead j (by omega)
      | some c =>
          have hi' : tensor.m_shards[i]? = some (some c) := by
            rw [List.getElem?_eq_getElem hlt, hx]
          have hlive : w.Live c := live_of_ref (h.ref_of_mem ht (List.mem_of_getElem? hi'))
          have hsize : tensors.length = 1 ∨ i < tensors.length := by omega
          obtain ⟨rt, -, hmove⟩ := move_shard_eq runtime ht hi' hsize
          obtain ⟨w₁, hcall, hmade⟩ := h.from_runtime_tensor runtime
            (List.forall_mem_singleton.mpr hlive) rt
          rw [hmove, hcall]
          change (List.foldlM _ w₁ _ >>= _) = _
          cases ht₁ : w₁.tensors t with
          | none => exact move_shards_gone runtime ht₁ tensors _
          | some tensor₁ =>
              obtain ⟨tensor', ht', -, hshards⟩ := hmade.frame.kept (h.lt_next_uid ht) ht₁
              obtain rfl := Option.some.inj (ht.symm.trans ht')
              refine ih hmade.settled ht₁ ?_ (fun j hj => ?_) ?_
              · rw [hshards, List.length_map]
                exact hlen
              · rw [hshards, List.getElem?_map]
                by_cases hji : j = i
                · rw [hji, hi']
                  simp [without]
                · rw [hdead j (by omega)]
                  rfl
              · rw [hshards, List.length_map]
                omega

theorem Settled.shards_ne_nil (h : Settled w) (ht : w.tensors t = some tensor) :
    0 < tensor.m_shards.length := by
  obtain ⟨owners, howners, hcount⟩ := h.counted ht
  have hused := h.used ht
  obtain ⟨b, hb⟩ : owners.Nonempty := Finset.card_pos.mp (by omega)
  exact List.length_pos_of_mem (h.mem_attached ht ((howners b).mp hb))

theorem Settled.move_to_host_fault (h : Settled w) (ht : w.tensors t = some tensor)
    (hfits : Fits runtime tensor) (hfirst : ¬w.FirstLive t) :
    w.move_to_host runtime t = .error .use_after_free := by
  have hpos := h.shards_ne_nil ht
  have hdead : tensor.m_shards[0]? = some none := by
    cases hx : tensor.m_shards[0] with
    | none => rw [List.getElem?_eq_getElem hpos, hx]
    | some b => exact absurd ⟨tensor, b, ht, by rw [List.getElem?_eq_getElem hpos, hx]⟩ hfirst
  obtain ⟨first, hget⟩ : ∃ first, (runtime.toHost tensor.m_runtime_tensor)[0]? = some first := by
    have hlen : 0 < (runtime.toHost tensor.m_runtime_tensor).length := by
      rcases hfits with hfits | hfits <;> omega
    exact ⟨_, List.getElem?_eq_getElem hlen⟩
  have h₀ : Settled (w.set_tensor t { tensor with m_runtime_tensor := first }) :=
    h.set_tensor ht (fun _ => rfl) rfl
  have hloop := h₀.move_shards_fault runtime (set_tensor_self w t _) hfits.symm
    (fun j hj => by
      obtain rfl : j = 0 := by omega
      exact hdead) (Nat.add_sub_cancel' hpos)
  unfold move_to_host
  rw [deref_eq ht]
  change (ensure _ _ >>= _) = _
  rw [ensure_of (show _ ∨ _ from hfits)]
  change ((get (runtime.toHost tensor.m_runtime_tensor)[0]? _ : Except Fault RT) >>= _) = _
  rw [hget]
  change ((List.foldlM _ (w.set_tensor t _) _ : Except Fault (World RT)) >>= _) = _
  apply bind_eq_error.mpr
  rcases bind_eq_error.mp hloop with hloop | ⟨w₁, hloop, hderef⟩
  · exact Or.inl hloop
  · refine Or.inr ⟨w₁, hloop, ?_⟩
    rw [hderef]
    rfl

end TTXla.PJRT.World
