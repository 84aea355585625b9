import TTXla.PJRT.Execution.Contents

namespace TTXla.PJRT.World

open Excepts Run

variable {RT L D : Type} {runtime : DeviceRuntime RT L D} {w w' : World RT} {b : BufferId}

section Inputs

variable {num_devices : Nat} {mesh_shape : List Nat}

-- A condition on each argument in the state in which it is prepared.
def AllMeet (runtime : DeviceRuntime RT L D) (meets : World RT → Argument L → Prop)
    (num_devices : Nat) (mesh_shape : List Nat) : List (Argument L) → World RT → Prop
  | [], _ => True
  | arg :: args, w => meets w arg ∧ ∀ w' prepared,
      w.prepareInputTensor runtime arg num_devices mesh_shape = .ok (w', some prepared) →
        AllMeet runtime meets num_devices mesh_shape args w'

theorem AllMeet.mono {meets meets' : World RT → Argument L → Prop} {args : List (Argument L)}
    (hle : ∀ w arg, meets w arg → meets' w arg)
    (h : AllMeet runtime meets num_devices mesh_shape args w) :
    AllMeet runtime meets' num_devices mesh_shape args w := by
  induction args generalizing w with
  | nil => trivial
  | cons arg args ih =>
      exact ⟨hle w arg h.1, fun w' prepared hcall => ih (h.2 w' prepared hcall)⟩

theorem Holds.of_extends {buffers : List BufferId} {rt : RT} (h : Holds runtime w' buffers rt)
    (hextends : Extends runtime w w') : Holds runtime w buffers rt :=
  fun i b d hb hd => h i b d hb (hextends.content b d hd)

-- One round of the loop: it goes on, or it ends with what is prepared so far.
theorem getInputRuntimeTensors_cons {arg : Argument L} {args : List (Argument L)}
    {inputs inputs' : List RT} {status : Status}
    (hcall : getInputRuntimeTensors runtime num_devices mesh_shape (arg :: args) w inputs =
      .ok (w', status, inputs')) :
    ∃ w₁ prepared, w.prepareInputTensor runtime arg num_devices mesh_shape = .ok (w₁, prepared) ∧
      ((w' = w₁ ∧ status = .kInternal) ∨ ∃ rt, prepared = some rt ∧
        getInputRuntimeTensors runtime num_devices mesh_shape args w₁ (inputs ++ [rt]) =
          .ok (w', status, inputs')) := by
  unfold getInputRuntimeTensors at hcall
  obtain ⟨⟨w₁, prepared⟩, hprepare, hcall⟩ := bind_eq_ok.mp hcall
  refine ⟨w₁, prepared, hprepare, ?_⟩
  cases prepared with
  | none =>
      cases hcall
      exact Or.inl ⟨rfl, rfl⟩
  | some rt =>
      dsimp only at hcall
      split at hcall
      · cases hcall
        exact Or.inl ⟨rfl, rfl⟩
      · split at hcall
        · cases hcall
          exact Or.inl ⟨rfl, rfl⟩
        · exact Or.inr ⟨rt, rfl, hcall⟩

theorem getInputRuntimeTensors_extends (hlaws : runtime.Lawful) (hw : Settled w)
    {args : List (Argument L)} {inputs inputs' : List RT} {status : Status}
    (hmeet : AllMeet runtime (fun w arg => Meets runtime w arg num_devices) num_devices mesh_shape
      args w)
    (hcall : getInputRuntimeTensors runtime num_devices mesh_shape args w inputs =
      .ok (w', status, inputs')) : Extends runtime w w' := by
  induction args generalizing w inputs with
  | nil =>
      cases hcall
      exact Extends.refl hw
  | cons arg args ih =>
      obtain ⟨w₁, prepared, hprepare, hend | ⟨rt, rfl, hrest⟩⟩ := getInputRuntimeTensors_cons hcall
      · obtain ⟨rfl, -⟩ := hend
        exact (hmeet.1.prepareInputTensor hlaws hw hprepare).1
      · have hextends := (hmeet.1.prepareInputTensor hlaws hw hprepare).1
        exact hextends.trans (ih hextends.settled (hmeet.2 w₁ rt hprepare) hrest)

-- When all arguments are prepared, each tensor holds what the buffers held at first.
theorem getInputRuntimeTensors_holds (hlaws : runtime.Lawful) (hw : Settled w)
    {args : List (Argument L)} {inputs inputs' : List RT}
    (hmeet : AllMeet runtime (fun w arg => Meets runtime w arg num_devices ∧ InOrder w arg)
      num_devices mesh_shape args w)
    (hcall : getInputRuntimeTensors runtime num_devices mesh_shape args w inputs =
      .ok (w', .kSuccess, inputs')) :
    ∃ tensors, inputs' = inputs ++ tensors ∧
      List.Forall₂ (fun arg rt => Holds runtime w arg.arg_buffers rt) args tensors := by
  induction args generalizing w inputs with
  | nil =>
      cases hcall
      exact ⟨[], (List.append_nil _).symm, .nil⟩
  | cons arg args ih =>
      obtain ⟨⟨hmeets, horder⟩, hnext⟩ := hmeet
      obtain ⟨w₁, prepared, hprepare, hend | ⟨rt, rfl, hrest⟩⟩ := getInputRuntimeTensors_cons hcall
      · cases hend.2
      · obtain ⟨hextends, hholds⟩ := hmeets.prepareInputTensor hlaws hw hprepare
        obtain ⟨tensors, hinputs, hforall⟩ :=
          ih hextends.settled (hnext w₁ rt hprepare) hrest
        refine ⟨rt :: tensors, by simp [hinputs], .cons (hholds rt rfl horder) ?_⟩
        exact hforall.imp fun arg' rt' h => h.of_extends hextends

end Inputs

section Outputs

theorem ref_of_not_live (hb : ¬w.Live b) : w.ref b = none := by
  have hnone : w.buffers b = none := Option.eq_none_iff_forall_ne_some.mpr fun r hr => hb ⟨r, hr⟩
  simp [ref, hnone]

-- What new buffers leave as it is.
structure Created (runtime : DeviceRuntime RT L D) (buffers : List BufferId) (w w' : World RT) :
    Prop extends Kept runtime w w' where
  live : ∀ b, w'.Live b ↔ w.Live b ∨ b ∈ buffers
  ref : ∀ b, w'.ref b = w.ref b

variable (runtime) in
theorem create_created (hw : Settled w) (hb : ¬w.Live b) :
    Created runtime [b] w (create_buffer w b) := by
  have hlive : ∀ c, (create_buffer w b).Live c ↔ w.Live c ∨ c ∈ [b] := by
    intro c
    unfold create_buffer Live
    dsimp only
    by_cases hc : c = b
    · simp [hc]
    · simp [hc]
  have href : ∀ c, (create_buffer w b).ref c = w.ref c := by
    intro c
    by_cases hc : c = b
    · subst hc
      rw [ref_of_not_live hb]
      simp [create_buffer, ref]
    · simp [create_buffer, ref, Function.update_of_ne hc]
  refine ⟨⟨hw.create hb, fun c d hd => ?_⟩, hlive, href⟩
  have htensors : (create_buffer w b).tensors = w.tensors := rfl
  unfold content at hd ⊢
  rw [href, htensors]
  exact hd

variable (runtime) in
theorem creates_created (hw : Settled w) {buffers : List BufferId} (hnodup : buffers.Nodup)
    (hfresh : ∀ b ∈ buffers, ¬w.Live b) :
    Created runtime buffers w (buffers.foldl create_buffer w) := by
  induction buffers generalizing w with
  | nil => exact ⟨.refl hw, fun b => by simp, fun _ => rfl⟩
  | cons b buffers ih =>
      rw [List.nodup_cons] at hnodup
      have hfirst := create_created runtime hw (hfresh b List.mem_cons_self)
      have hfresh' : ∀ c ∈ buffers, ¬(create_buffer w b).Live c := by
        intro c hc hlive
        rcases (hfirst.live c).mp hlive with hlive | hcb
        · exact hfresh c (List.mem_cons_of_mem _ hc) hlive
        · exact hnodup.1 (List.mem_singleton.mp hcb ▸ hc)
      have hrest := ih hfirst.settled hnodup.2 hfresh'
      refine ⟨hfirst.toKept.trans hrest.toKept, fun c => ?_, fun c => ?_⟩
      · rw [List.foldl_cons, hrest.live, hfirst.live, List.mem_singleton, List.mem_cons, or_assoc]
      · rw [List.foldl_cons, hrest.ref, hfirst.ref]

-- A buffer without a tensor gets one.
theorem fill_extends (hlaws : runtime.Lawful) (hw : Settled w) {buffers : List BufferId}
    (hnodup : buffers.Nodup) (hlive : ∀ b ∈ buffers, w.Live b)
    (hempty : ∀ b ∈ buffers, w.ref b = none) (rt : RT) :
    ∃ w', w.from_runtime_tensor runtime.toRuntime buffers rt = .ok (w', w.next_uid) ∧
      Extends runtime w w' ∧ Made w.next_uid buffers (runtime.setTensorRetain rt true) w w' := by
  refine from_runtime_tensor_extends hlaws hw hlive hnodup fun i b d hb hd => ?_
  simp [content, hempty b (List.mem_of_getElem? hb)] at hd

theorem fillPJRTOutputLists_kept (hlaws : runtime.Lawful) (hw : Settled w)
    {outputs : List (RT × List BufferId)} (hnodup : (outputs.flatMap Prod.snd).Nodup)
    (hfresh : ∀ b ∈ outputs.flatMap Prod.snd, ¬w.Live b) :
    ∃ w', w.fillPJRTOutputLists runtime outputs = .ok w' ∧ Kept runtime w w' := by
  induction outputs generalizing w with
  | nil => exact ⟨w, rfl, .refl hw⟩
  | cons x outputs ih =>
      rw [List.flatMap_cons, List.nodup_append] at hnodup
      obtain ⟨hnodup₁, hnodup₂, hdisjoint⟩ := hnodup
      simp only [List.flatMap_cons, List.mem_append] at hfresh
      have hcreated := creates_created runtime hw hnodup₁
        fun b hb => hfresh b (Or.inl hb)
      obtain ⟨w₁, hcall, hextends, hmade⟩ := fill_extends hlaws hcreated.settled hnodup₁
        (fun b hb => (hcreated.live b).mpr (Or.inr hb))
        (fun b hb => (hcreated.ref b).trans (ref_of_not_live (hfresh b (Or.inl hb)))) x.1
      have hfresh₁ : ∀ b ∈ outputs.flatMap Prod.snd, ¬w₁.Live b := by
        intro b hb hlive
        rw [hmade.frame.live_iff, hcreated.live] at hlive
        rcases hlive with hlive | hin
        · exact hfresh b (Or.inr hb) hlive
        · exact hdisjoint b hin b hb rfl
      obtain ⟨w', hrest, hkeeps⟩ := ih hextends.settled hnodup₂ hfresh₁
      refine ⟨w', ?_, (hcreated.toKept.trans hextends.toKept).trans hkeeps⟩
      unfold fillPJRTOutputLists at hrest ⊢
      rw [List.foldlM_cons]
      dsimp only
      rw [hcall]
      exact hrest

end Outputs

section Calls

variable (runtime)

inductive Call (RT L D : Type) where
  | create (b : BufferId)
  | copyFromHost (b : BufferId) (data : D)
  | copyToHost (b : BufferId)
  | copyFromBuffer (b src_buffer : BufferId)
  | execute (image : ExecutableImage RT) (args : List (Argument L))
    (output_lists : List (List BufferId))
  | move_tensors_to_host (tensors : List TensorPtr)
  | destroy (b : BufferId)

def call (w : World RT) : Call RT L D → Except Fault (World RT)
  | .create b => return create_buffer w b
  | .copyFromHost b data => w.copyFromHost runtime b data
  | .copyToHost b => do
      let (w, _) ← w.copyToHost runtime b
      return w
  | .copyFromBuffer b src_buffer => w.copyFromBuffer runtime b src_buffer
  | .execute image args output_lists => do
      let (w, _, _) ← w.execute runtime image args output_lists
      return w
  | .move_tensors_to_host tensors => w.move_tensors_to_host runtime.toRuntime tensors
  | .destroy b => w.destroy_buffer b

-- What the callers pass, and how the arguments are combined.
def Allowed (w : World RT) : Call RT L D → Prop
  | .create b => ¬w.Live b
  | .copyFromHost b _ => w.Live b ∧ w.ref b = none
  | .copyToHost b => w.Live b
  | .copyFromBuffer b src_buffer => w.Live b ∧ w.ref b = none ∧ w.Live src_buffer
  | .execute image args output_lists =>
      AllMeet runtime (fun w arg => Meets runtime w arg image.num_devices) image.num_devices
        image.devices_mesh_shape args w ∧
      output_lists.flatten.Nodup ∧ ∀ b ∈ output_lists.flatten, ¬w.Live b
  | .move_tensors_to_host _ => True
  | .destroy b => w.Live b

variable {runtime}

theorem move_tensors_to_host_extends (hlaws : runtime.Lawful) (hw : Settled w)
    {tensors : List TensorPtr}
    (hcall : w.move_tensors_to_host runtime.toRuntime tensors = .ok w') :
    Extends runtime w w' := by
  induction tensors generalizing w with
  | nil =>
      cases hcall
      exact .refl hw
  | cons t tensors ih =>
      obtain ⟨w₁, hmove, hrest⟩ := bind_eq_ok.mp hcall
      have hextends := (move_to_host_extends hlaws hw hmove).1
      exact hextends.trans (ih hextends.settled hrest)

-- A copy to the host gives what the buffer holds.
theorem copyToHost_spec (hlaws : runtime.Lawful) (hw : Settled w) {data : D}
    (hcall : w.copyToHost runtime b = .ok (w', data)) :
    Extends runtime w w' ∧ (∀ c, w.ref c = none → w'.ref c = none) ∧
      ∀ d, content runtime w b = some d → data = d := by
  unfold copyToHost at hcall
  obtain ⟨t, ht, hcall⟩ := bind_eq_ok.mp hcall
  obtain ⟨w₁, hmove, hcall⟩ := bind_eq_ok.mp hcall
  obtain ⟨rt, hrt, hcall⟩ := bind_eq_ok.mp hcall
  cases hcall
  obtain ⟨hextends, href, hown⟩ := move_to_host_extends hlaws hw hmove
  refine ⟨hextends, fun c hc => (href c (by simp [hc])).trans hc, fun d hd => ?_⟩
  have href : w.ref b = some t := by
    obtain ⟨r, hr, hget⟩ := bind_eq_ok.mp ht
    rw [ref_of_buffer (get_eq_ok.mp hr)]
    exact get_eq_ok.mp hget
  obtain ⟨rt', hb, hcopy⟩ := hown b d href hd
  obtain ⟨s, tensor, hs, htensor, -, hrt'⟩ := hb
  rcases hextends.settled.runtimeTensor (live_of_ref hs) with ⟨s', tensor', hs', ht', heq⟩ | heq
  · obtain rfl := Option.some.inj (hs.symm.trans hs')
    obtain rfl := Option.some.inj (htensor.symm.trans ht')
    obtain rfl := Except.ok.inj (heq.symm.trans hrt)
    rw [hrt', hcopy]
  · rw [heq] at hrt
    cases hrt

theorem copyFromHost_extends (hlaws : runtime.Lawful) (hw : Settled w) (hb : w.Live b)
    (hempty : w.ref b = none) {data : D} (hcall : w.copyFromHost runtime b data = .ok w') :
    Extends runtime w w' ∧ content runtime w' b = some data := by
  unfold copyFromHost at hcall
  obtain ⟨w₁, hcall', hextends, hmade⟩ := fill_extends hlaws hw (List.nodup_singleton b)
    (by simpa using hb) (by simpa using hempty) (runtime.createOwnedHostTensor data)
  rw [hcall'] at hcall
  cases hcall
  obtain ⟨h, hhost, hcopy⟩ := hlaws.owned data
  refine ⟨hextends, (hmade.content_shard hlaws (List.nodup_singleton b) (i := 0) rfl).trans ?_⟩
  simp [DeviceRuntime.shard_data, hhost, hcopy]

-- A copy of a buffer holds what the buffer holds.
theorem copyFromBuffer_spec (hlaws : runtime.Lawful) (hw : Settled w) {src_buffer : BufferId}
    (hb : w.Live b) (hempty : w.ref b = none)
    (hcall : w.copyFromBuffer runtime b src_buffer = .ok w') :
    Extends runtime w w' ∧ ∀ d, content runtime w src_buffer = some d →
      content runtime w' b = some d := by
  unfold copyFromBuffer at hcall
  obtain ⟨⟨w₁, data⟩, hcopy, hcall⟩ := bind_eq_ok.mp hcall
  obtain ⟨hextends, href, hdata⟩ := copyToHost_spec hlaws hw hcopy
  obtain ⟨hextends', hcontent⟩ := copyFromHost_extends hlaws hextends.settled
    ((hextends.live b).mpr hb) (href b hempty) hcall
  refine ⟨hextends.trans hextends', fun d hd => ?_⟩
  rw [hcontent, hdata d hd]

theorem execute_kept (hlaws : runtime.Lawful) (hw : Settled w) {image : ExecutableImage RT}
    {args : List (Argument L)} {output_lists : List (List BufferId)} {status : Status}
    {inputs : List RT} (hallowed : Allowed runtime w (.execute image args output_lists))
    (hcall : w.execute runtime image args output_lists = .ok (w', status, inputs)) :
    Kept runtime w w' := by
  obtain ⟨hmeet, hnodup, hfresh⟩ := hallowed
  unfold execute at hcall
  split at hcall
  · cases hcall
    exact .refl hw
  · obtain ⟨⟨w₁, status₁, inputs₁⟩, hinputs, hcall⟩ := bind_eq_ok.mp hcall
    have hextends := getInputRuntimeTensors_extends hlaws hw hmeet hinputs
    dsimp only at hcall
    split at hcall
    · cases hcall
      exact hextends.toKept
    · split at hcall
      · cases hcall
        exact hextends.toKept
      · rename_i output_tensors _
        split at hcall
        · cases hcall
          exact hextends.toKept
        · rename_i hlen
          have hbuffers : (output_tensors.zip output_lists).flatMap Prod.snd =
              output_lists.flatten := by
            rw [List.flatMap_def, List.map_snd_zip (by omega)]
          have hnodup' : ((output_tensors.zip output_lists).flatMap Prod.snd).Nodup := by
            rw [hbuffers]
            exact hnodup
          obtain ⟨w₂, hfill, hkept⟩ := fillPJRTOutputLists_kept hlaws hextends.settled hnodup'
            fun b hb hlive => hfresh b (hbuffers ▸ hb) ((hextends.live b).mp hlive)
          rw [hfill] at hcall
          cases hcall
          exact hextends.toKept.trans hkept

-- No call changes what a buffer holds, unless it destroys the buffer.
theorem call_kept (hlaws : runtime.Lawful) (hw : Settled w) {c : Call RT L D}
    (hallowed : Allowed runtime w c) (hcall : w.call runtime c = .ok w') :
    Settled w' ∧ ∀ b d, c ≠ .destroy b → content runtime w b = some d →
      content runtime w' b = some d := by
  have hkept : ∀ {w'}, Kept runtime w w' → Settled w' ∧ ∀ b d, c ≠ .destroy b →
      content runtime w b = some d → content runtime w' b = some d :=
    fun h => ⟨h.settled, fun b d _ hd => h.content b d hd⟩
  cases c with
  | create b =>
      cases hcall
      exact hkept (create_created runtime hw hallowed).toKept
  | copyFromHost b data =>
      exact hkept (copyFromHost_extends hlaws hw hallowed.1 hallowed.2 hcall).1.toKept
  | copyToHost b =>
      obtain ⟨⟨w₁, data⟩, hcopy, hcall⟩ := bind_eq_ok.mp hcall
      cases hcall
      exact hkept (copyToHost_spec hlaws hw hcopy).1.toKept
  | copyFromBuffer b src_buffer =>
      exact hkept (copyFromBuffer_spec hlaws hw hallowed.1 hallowed.2.1 hcall).1.toKept
  | execute image args output_lists =>
      obtain ⟨⟨w₁, status, inputs⟩, hexecute, hcall⟩ := bind_eq_ok.mp hcall
      cases hcall
      exact hkept (execute_kept hlaws hw hallowed hexecute)
  | move_tensors_to_host tensors =>
      exact hkept (move_tensors_to_host_extends hlaws hw hcall).toKept
  | destroy b =>
      obtain ⟨w₁, hdestroy, hdestroyed⟩ := hw.destroy_buffer hallowed
      obtain rfl := Except.ok.inj (hdestroy.symm.trans hcall)
      refine ⟨hdestroyed.settled, fun c d hne hd => ?_⟩
      have hcb : c ≠ b := fun h => hne (h ▸ rfl)
      have href : w₁.ref c = w.ref c := by simp [World.ref, hdestroyed.others c hcb]
      cases hu : w.ref c with
      | none => simp [content, hu] at hd
      | some u =>
          obtain ⟨tensor', ht'⟩ := hdestroyed.settled.referenced (href.trans hu)
          obtain ⟨tensor, ht, hrt, hshards⟩ := hdestroyed.kept ht'
          rw [content_eq hu ht] at hd
          rw [content_eq (href.trans hu) ht', hrt, hshards, idxOf_without (by simpa using hcb)]
          exact hd

end Calls

section Runs

variable (runtime)

def next (w : World RT) (c : Call RT L D) : Option (World RT) := (w.call runtime c).toOption

variable {runtime}

theorem settled_of_reachable (hlaws : runtime.Lawful)
    (hreach : Reachable (next runtime) (Allowed runtime) init w) : Settled w := by
  refine hreach.invariant Settled Settled.init fun w c w' h hallowed hnext => ?_
  exact (call_kept hlaws h hallowed (eq_ok_of_toOption hnext)).1

end Runs

section Example

def hostRuntime : DeviceRuntime (List Nat) Unit Nat where
  toRuntime := listRuntime
  hasLayout := fun _ _ => false
  toLayout := fun rt _ _ => rt
  getTensorRetain := fun _ => true
  isTensorAllocated := fun _ => true
  memcpy := fun rt => rt.headD 0
  createOwnedHostTensor := fun data => [data]

theorem hostRuntime_toHost_memcpy (rt : List Nat) :
    (hostRuntime.toHost rt).map hostRuntime.memcpy = rt := by
  change (rt.map fun x => [x]).map (fun h => h.headD 0) = rt
  simp [Function.comp_def]

theorem hostRuntime_lawful : hostRuntime.Lawful where
  host := by
    intro rt h hh
    obtain ⟨x, -, rfl⟩ := List.mem_map.mp hh
    exact ⟨[x], rfl, rfl⟩
  retain := fun _ _ => rfl
  memcpy := fun _ _ => rfl
  layout := fun _ _ _ => rfl
  owned := fun data => ⟨[data], rfl, rfl⟩
  multi := by
    intro rts hosts strategy mesh_shape h
    rw [hostRuntime_toHost_memcpy]
    change rts.flatten = hosts.map fun h => h.headD 0
    induction rts generalizing hosts with
    | nil =>
        obtain rfl : hosts = [] := List.map_eq_nil_iff.mp h.symm
        rfl
    | cons rt rts ih =>
        cases hosts with
        | nil => cases h
        | cons host hosts =>
            obtain ⟨hrt, hrest⟩ := List.cons.inj h
            obtain ⟨x, rfl, rfl⟩ : ∃ x, rt = [x] ∧ host = [x] := by
              change rt.map (fun x => [x]) = [host] at hrt
              obtain ⟨x, rfl⟩ := List.length_eq_one_iff.mp (by simpa using congrArg List.length hrt)
              exact ⟨x, rfl, (List.cons.inj hrt).1.symm⟩
            simp [ih hosts hrest]

def afterCall (w : World (List Nat)) (c : Call (List Nat) Unit Nat) : World (List Nat) :=
  (next hostRuntime w c).getD w

-- A buffer is filled, and an execution reads it.
def hostBuffer : World (List Nat) := init.afterCall (.create 0)

def filledBuffer : World (List Nat) := hostBuffer.afterCall (.copyFromHost 0 5)

def doubled : ExecutableImage (List Nat) :=
  ⟨1, 1, [1], fun rts => some (rts.map fun rt => rt.map (2 * ·))⟩

def replicatedArgument : Argument Unit := ⟨[0], ⟨.Replicate, []⟩, ()⟩

def executed : World (List Nat) :=
  filledBuffer.afterCall (.execute doubled [replicatedArgument] [[1]])

theorem hostBuffer_reachable {valid : World (List Nat) → Call (List Nat) Unit Nat → Prop}
    (hvalid : valid init (.create 0)) :
    Reachable (next hostRuntime) valid init hostBuffer :=
  .next .start hvalid (a := .create 0) rfl

-- Two buffers are combined into a sharded argument.
def filledBuffers : World (List Nat) :=
  (filledBuffer.afterCall (.create 1)).afterCall (.copyFromHost 1 7)

def shardedArgument : Argument Unit := ⟨[0, 1], ⟨.Devices, [2]⟩, ()⟩

end Example
end TTXla.PJRT.World
