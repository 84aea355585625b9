import TTXla.TTTorch.ArgumentMarkers.Marked

-- What a graph computes, and that the markers keep it when no input is read after a `copy_` to it.
namespace TTXla.TTTorch.Passes

variable {F : Type}

-- The operations of an exported graph are functional, `copy_` alone writes to a tensor. It
-- converts what it copies to the shape and type of the destination.
structure Interp (F V : Type) where
  input : Nat → V
  apply : F → List V → V
  copy : V → V → V
  tuple : List V → V

section Evaluation

variable {V : Type} (I : Interp F V)

def Node.value (n : Node F) (mem : Nat → V) : V :=
  match n.op with
  | .placeholder _ _ => I.input n.id
  | .get_attr _ _ => I.input n.id
  | .call_function .copy_ [dst, src] => I.copy (mem dst) (mem src)
  | .call_function .copy_ args => I.tuple (args.map mem)
  | .call_function (.mark_argument_attributes _ _) [i] => mem i
  | .call_function (.mark_argument_attributes _ _) args => I.tuple (args.map mem)
  | .call_function (.other f) args => I.apply f (args.map mem)
  | .output args => I.tuple (args.map mem)

def Node.eval (n : Node F) (mem : Nat → V) : Nat → V := fun i =>
  if i = n.id ∨ n.copies_to i = true then n.value I mem else mem i

-- The values of the nodes in their order; that of a `copy_` is what its destination then holds.
def trace : List (Node F) → (Nat → V) → List (Nat × V)
  | [], _ => []
  | n :: nodes, mem => (n.id, n.value I mem) :: trace nodes (n.eval I mem)

variable {I}

theorem Node.value_congr (n : Node F) {mem mem' : Nat → V} (h : ∀ a ∈ n.args, mem a = mem' a) :
    n.value I mem = n.value I mem' := by
  have hargs : n.args.map mem = n.args.map mem' := List.map_congr_left h
  obtain ⟨id, op⟩ := n
  cases op with
  | placeholder name target => rfl
  | get_attr name target => rfl
  | output args => exact congrArg I.tuple hargs
  | call_function callee args =>
      cases callee with
      | other f => exact congrArg (I.apply f) hargs
      | mark_argument_attributes ty name =>
          obtain _ | ⟨a, _ | ⟨b, args⟩⟩ := args
          · rfl
          · exact h a List.mem_cons_self
          · exact congrArg I.tuple hargs
      | copy_ =>
          obtain _ | ⟨a, _ | ⟨b, _ | ⟨c, args⟩⟩⟩ := args
          · rfl
          · exact congrArg I.tuple hargs
          · exact congrArg₂ I.copy (h a List.mem_cons_self)
              (h b (List.mem_cons_of_mem _ List.mem_cons_self))
          · exact congrArg I.tuple hargs

theorem Node.value_map_args (n : Node F) (f : Nat → Nat) (mem : Nat → V) :
    (n.map_args f).value I mem = n.value I fun a => mem (f a) := by
  obtain ⟨id, op⟩ := n
  cases op with
  | placeholder name target => rfl
  | get_attr name target => rfl
  | output args => simp only [map_args, Op.map_args, value, List.map_map, Function.comp_def]
  | call_function callee args =>
      cases callee with
      | other g => simp only [map_args, Op.map_args, value, List.map_map, Function.comp_def]
      | mark_argument_attributes ty name =>
          obtain _ | ⟨a, _ | ⟨b, args⟩⟩ := args <;>
            simp [map_args, Op.map_args, value, List.map_map, Function.comp_def]
      | copy_ =>
          obtain _ | ⟨a, _ | ⟨b, _ | ⟨c, args⟩⟩⟩ := args <;>
            simp [map_args, Op.map_args, value, List.map_map, Function.comp_def]

theorem value_of_input {gm : Graph F} {input : InputNode} (h : input ∈ input_nodes gm) {n : Node F}
    (hn : n ∈ gm.nodes) (hid : n.id = input.id) (mem : Nat → V) : n.value I mem = I.input n.id := by
  obtain h | h := mem_input_nodes.mp h
  · rw [Graph.eq_of_id hn h hid]
    rfl
  · rw [Graph.eq_of_id hn h hid]
    rfl

theorem Node.copies_to_mem (n : Node F) {i : Nat} (h : n.copies_to i = true) : i ∈ n.args := by
  obtain ⟨rest, hop⟩ := (n.copies_to_iff i).mp h
  unfold args
  rw [hop]
  exact List.mem_cons_self

end Evaluation

-- Each node comes after the nodes that it uses.
def Graph.Sorted (gm : Graph F) : Prop :=
  ∀ before n after, gm.nodes = before ++ n :: after → ∀ a ∈ n.args, ∃ n' ∈ before, n'.id = a

-- No input that has a marker is read after a `copy_` to it.
def ReadsFirst (gm : Graph F) (marks : Nat → Option (Node F)) : Prop :=
  ∀ before n after, gm.nodes = before ++ n :: after → ∀ a ∈ n.args, n.copies_to a = false →
    (marks a).isSome → ∀ n' ∈ before, n'.copies_to a = false

section Simulation

variable {V : Type} {I : Interp F V} {d : TypeDicts} {lookup : Dict (List Char) String}
  {gm g : Graph F} {marks : Nat → Option (Node F)}

-- The memories of the two runs once the nodes in `before` are evaluated.
structure Agrees (I : Interp F V) (gm : Graph F) (marks : Nat → Option (Node F))
    (before : List (Node F)) (mem mem' : Nat → V) : Prop where
  agree : ∀ i < gm.next, mem' i = mem i
  marker : ∀ n ∈ before, ∀ m, marks n.id = some m → mem' m.id = I.input n.id
  unwritten : ∀ n ∈ before, (marks n.id).isSome → (∀ n' ∈ before, n'.copies_to n.id = false) →
    mem n.id = I.input n.id

def Node.eval_marker (I : Interp F V) (marker : Option (Node F)) (mem : Nat → V) : Nat → V :=
  match marker with
  | some m => m.eval I mem
  | none => mem

theorem Marked.arg_lt (hsorted : gm.Sorted) {before after : List (Node F)} {n : Node F}
    (hnodes : gm.nodes = before ++ n :: after) {a : Nat} (ha : a ∈ n.args) : a < gm.next := by
  obtain ⟨n', hn', rfl⟩ := hsorted before n after hnodes a ha
  exact gm.ids_lt n' (by simp [hnodes, hn'])

-- Markers of different inputs have different ids.
theorem Marked.marker_ids (h : Marked d lookup gm (input_nodes gm) g marks) {i j : Nat}
    {m m' : Node F} (hm : marks i = some m) (hm' : marks j = some m') (hid : m.id = m'.id) :
    i = j := by
  obtain ⟨input, hinput, rfl, _⟩ := h.marker _ _ hm
  obtain ⟨input', hinput', rfl, _⟩ := h.marker _ _ hm'
  obtain ⟨hmem, _, ty, _, hmeq⟩ := h.marker_mem hinput hm
  obtain ⟨hmem', _, ty', _, hmeq'⟩ := h.marker_mem hinput' hm'
  have heq := Graph.eq_of_id hmem hmem' hid
  rw [heq, hmeq'] at hmeq
  unfold marker_node at hmeq
  simp only [Node.mk.injEq, Op.call_function.injEq, List.cons.injEq] at hmeq
  exact hmeq.2.2.1.symm

-- What a node computes past the markers, where the reads of the marked inputs are unwritten.
theorem Agrees.value_eq {before : List (Node F)} {mem mem' : Nat → V}
    (h : Agrees I gm marks before mem mem') {n : Node F} (hlt : ∀ a ∈ n.args, a < gm.next)
    (hbefore : ∀ a ∈ n.args, ∃ n' ∈ before, n'.id = a)
    (hreads : ∀ a ∈ n.args, n.copies_to a = false → (marks a).isSome → mem a = I.input a) :
    (n.redirect marks).value I mem' = n.value I mem := by
  unfold Node.redirect
  rw [n.value_map_args]
  refine n.value_congr fun a ha => ?_
  unfold Node.redirect_arg
  by_cases hcopies : n.copies_to a = true
  · rw [if_pos hcopies]
    exact h.agree a (hlt a ha)
  · rw [if_neg hcopies]
    cases hm : marks a with
    | none => exact h.agree a (hlt a ha)
    | some m =>
        obtain ⟨n', hn', rfl⟩ := hbefore a ha
        rw [hreads n'.id ha (Bool.eq_false_iff.mpr hcopies) (by rw [hm]; rfl)]
        exact h.marker n' hn' m hm

-- The next node, with its marker.
theorem Agrees.step (hmarked : Marked d lookup gm (input_nodes gm) g marks) (hsorted : gm.Sorted)
    {before after : List (Node F)} {n : Node F} (hnodes : gm.nodes = before ++ n :: after)
    {mem mem' : Nat → V} (h : Agrees I gm marks before mem mem')
    (hvalue : (n.redirect marks).value I mem' = n.value I mem) :
    Agrees I gm marks (before ++ [n]) (n.eval I mem)
      (Node.eval_marker I (marks n.id) ((n.redirect marks).eval I mem')) := by
  have hn : n ∈ gm.nodes := by simp [hnodes]
  have hids := gm.ids_nodup
  rw [hnodes, List.map_append, List.map_cons, List.nodup_middle, List.nodup_cons] at hids
  have hnew : ∀ n' ∈ before, n'.id ≠ n.id := fun n' hn' heq =>
    hids.1 (List.mem_append_left _ (heq ▸ List.mem_map_of_mem hn'))
  have hstep : ∀ i < gm.next, (n.redirect marks).eval I mem' i = n.eval I mem i := by
    intro i hi
    unfold Node.eval
    rw [Node.redirect_id, n.redirect_copies_to, hvalue, h.agree i hi]
  have hfresh : ∀ j m, marks j = some m → gm.next ≤ m.id := by
    intro j m hm
    obtain ⟨_, _, _, _, _, _, hge, _⟩ := hmarked.marker _ _ hm
    exact hge
  -- the node itself writes to no marker
  have hkept : ∀ j m, marks j = some m → (n.redirect marks).eval I mem' m.id = mem' m.id := by
    intro j m hm
    have hge := hfresh j m hm
    unfold Node.eval
    rw [Node.redirect_id, n.redirect_copies_to, if_neg]
    rintro (heq | hcopies)
    · have := gm.ids_lt n hn
      omega
    · have := Marked.arg_lt hsorted hnodes (n.copies_to_mem hcopies)
      omega
  have hmarker : ∀ m, marks n.id = some m → n.value I mem = I.input n.id ∧
      m.value I ((n.redirect marks).eval I mem') = I.input n.id := by
    intro m hm
    obtain ⟨input, hinput, hid, _, ty, _, _, hmeq⟩ := hmarked.marker _ _ hm
    have hvalue_n := value_of_input (I := I) hinput hn hid.symm mem
    refine ⟨hvalue_n, ?_⟩
    rw [hmeq]
    have : (n.redirect marks).eval I mem' n.id = n.value I mem := by
      rw [hstep _ (gm.ids_lt n hn)]
      exact if_pos (.inl rfl)
    exact this.trans hvalue_n
  have hno_copy : ∀ m, marks n.id = some m → ∀ i, m.copies_to i = false := by
    intro m hm i
    obtain ⟨_, _, _, _, _, _, _, hmeq⟩ := hmarked.marker _ _ hm
    rw [hmeq]
    rfl
  refine ⟨fun i hi => ?_, fun n' hn' m hm => ?_, fun n' hn' hsome hwrites => ?_⟩
  · rw [← hstep i hi]
    cases hm : marks n.id with
    | none => rfl
    | some m =>
        have hge := hfresh _ _ hm
        refine if_neg ?_
        rw [hno_copy m hm]
        rintro (heq | h)
        · omega
        · exact absurd h Bool.false_ne_true
  · obtain hn' | heq := List.mem_append.mp hn'
    · have hother : mem' m.id = I.input n'.id := h.marker n' hn' m hm
      rw [← hother, ← hkept _ m hm]
      cases hmn : marks n.id with
      | none => rfl
      | some mn =>
          refine if_neg ?_
          rw [hno_copy mn hmn]
          rintro (heq | h)
          · exact hnew n' hn' (hmarked.marker_ids hm hmn heq)
          · exact absurd h Bool.false_ne_true
    · rw [List.mem_singleton.mp heq] at hm ⊢
      rw [hm]
      exact (if_pos (.inl rfl)).trans (hmarker m hm).2
  · obtain hn' | heq := List.mem_append.mp hn'
    · have hcopies := hwrites n (List.mem_append_right _ List.mem_cons_self)
      rw [← h.unwritten n' hn' hsome fun n₀ hn₀ => hwrites n₀ (List.mem_append_left _ hn₀)]
      refine if_neg ?_
      rw [hcopies]
      rintro (heq | h)
      · exact hnew n' hn' heq
      · exact absurd h Bool.false_ne_true
    · rw [List.mem_singleton.mp heq] at hsome ⊢
      obtain ⟨m, hm⟩ := Option.isSome_iff_exists.mp hsome
      exact (if_pos (.inl rfl)).trans (hmarker m hm).1

end Simulation

section Meaning

-- Whatever the operations compute, every node of the graph has the value that it had.
def MeaningKept (gm r : Graph F) : Prop :=
  ∀ (V : Type) (I : Interp F V),
    (trace I r.nodes I.input).filter (fun p => p.1 < gm.next) = trace I gm.nodes I.input

variable {d : TypeDicts} {lookup : Dict (List Char) String} {gm g : Graph F}
  {marks : Nat → Option (Node F)}

theorem trace_marked_cons (hmarked : Marked d lookup gm (input_nodes gm) g marks) {V : Type}
    (I : Interp F V) {n : Node F} (hn : n ∈ gm.nodes) (rest : List (Node F)) (mem' : Nat → V) :
    (trace I (marked_nodes marks (n :: rest)) mem').filter (fun p => p.1 < gm.next) =
      (n.id, (n.redirect marks).value I mem') ::
        (trace I (marked_nodes marks rest)
          (Node.eval_marker I (marks n.id) ((n.redirect marks).eval I mem'))).filter
            (fun p => p.1 < gm.next) := by
  have hlt : decide (n.id < gm.next) = true := decide_eq_true (gm.ids_lt n hn)
  unfold marked_nodes
  rw [List.flatMap_cons, List.cons_append, trace, Node.redirect_id, List.filter_cons, if_pos hlt]
  cases hm : marks n.id with
  | none => rfl
  | some m =>
      obtain ⟨_, _, _, _, _, _, hge, _⟩ := hmarked.marker _ _ hm
      have hnew : ¬decide (m.id < gm.next) = true := by
        rw [decide_eq_true_eq]
        omega
      rw [Option.toList_some, List.singleton_append, trace, List.filter_cons, if_neg hnew]
      rfl

theorem agrees_start {V : Type} (I : Interp F V) : Agrees I gm marks [] I.input I.input :=
  ⟨fun _ _ => rfl, nofun, nofun⟩

theorem trace_of_reads (hmarked : Marked d lookup gm (input_nodes gm) g marks)
    (hsorted : gm.Sorted) (hreads : ReadsFirst gm marks) {V : Type} {I : Interp F V}
    {before rest : List (Node F)} (hnodes : gm.nodes = before ++ rest) {mem mem' : Nat → V}
    (h : Agrees I gm marks before mem mem') :
    (trace I (marked_nodes marks rest) mem').filter (fun p => p.1 < gm.next) =
      trace I rest mem := by
  induction rest generalizing before mem mem' with
  | nil => rfl
  | cons n rest ih =>
      have hn : n ∈ gm.nodes := by simp [hnodes]
      have hvalue : (n.redirect marks).value I mem' = n.value I mem := by
        refine h.value_eq (fun a ha => Marked.arg_lt hsorted hnodes ha)
          (hsorted before n rest hnodes) fun a ha hcopies hsome => ?_
        obtain ⟨n', hn', rfl⟩ := hsorted before n rest hnodes a ha
        exact h.unwritten n' hn' hsome (hreads before n rest hnodes _ ha hcopies hsome)
      rw [trace_marked_cons hmarked I hn, trace, hvalue]
      congr 1
      exact ih (by rw [hnodes]; simp) (h.step hmarked hsorted hnodes hvalue)

-- The values as texts of their computation, which tell any two computations apart.
inductive Term (F : Type) where
  | input (i : Nat)
  | app (f : F) (args : List (Term F))
  | copy (dst src : Term F)
  | tuple (args : List (Term F))

def free : Interp F (Term F) := ⟨.input, .app, .copy, .tuple⟩

theorem Node.value_free_inj (n : Node F) {mem mem' : Nat → Term F}
    (h : n.value free mem = n.value free mem') : ∀ a ∈ n.args, mem a = mem' a := by
  obtain ⟨id, op⟩ := n
  cases op with
  | placeholder name target => exact fun a ha => absurd ha List.not_mem_nil
  | get_attr name target => exact fun a ha => absurd ha List.not_mem_nil
  | output args => exact List.map_inj_left.mp (Term.tuple.inj h)
  | call_function callee args =>
      cases callee with
      | other f => exact List.map_inj_left.mp (Term.app.inj h).2
      | mark_argument_attributes ty name =>
          obtain _ | ⟨a, _ | ⟨b, args⟩⟩ := args
          · exact fun a ha => absurd ha List.not_mem_nil
          · intro a' ha'
            rw [List.mem_singleton.mp ha']
            exact h
          · exact List.map_inj_left.mp (Term.tuple.inj h)
      | copy_ =>
          obtain _ | ⟨a, _ | ⟨b, _ | ⟨c, args⟩⟩⟩ := args
          · exact fun a ha => absurd ha List.not_mem_nil
          · exact List.map_inj_left.mp (Term.tuple.inj h)
          · obtain ⟨ha, hb⟩ := Term.copy.inj h
            intro a' ha'
            obtain rfl | ha' := List.mem_cons.mp ha'
            · exact ha
            · rw [List.mem_singleton.mp ha']
              exact hb
          · exact List.map_inj_left.mp (Term.tuple.inj h)

theorem Node.value_copy_ne_input {n : Node F} {i j : Nat} (h : n.copies_to i = true)
    (mem : Nat → Term F) : n.value free mem ≠ .input j := by
  obtain ⟨args, hop⟩ := (n.copies_to_iff i).mp h
  unfold value
  rw [hop]
  obtain _ | ⟨b, _ | ⟨c, args⟩⟩ := args <;> exact nofun

-- An input that is written to no longer has its first value.
def Written (before : List (Node F)) (mem : Nat → Term F) : Prop :=
  ∀ n ∈ before, (∃ n' ∈ before, n'.copies_to n.id = true) → mem n.id ≠ .input n.id

theorem Written.step (hsorted : gm.Sorted) {before after : List (Node F)} {n : Node F}
    (hnodes : gm.nodes = before ++ n :: after) {mem : Nat → Term F} (h : Written before mem) :
    Written (before ++ [n]) (n.eval free mem) := by
  have hids := gm.ids_nodup
  rw [hnodes, List.map_append, List.map_cons, List.nodup_middle, List.nodup_cons] at hids
  have hnew : ∀ n' ∈ before, n'.id ≠ n.id := fun n' hn' heq =>
    hids.1 (List.mem_append_left _ (heq ▸ List.mem_map_of_mem hn'))
  have hself : ∀ n' ∈ before ++ [n], n'.copies_to n.id = false := by
    intro n' hn'
    rw [Bool.eq_false_iff]
    intro hcopies
    have hmem := n'.copies_to_mem hcopies
    obtain hn' | heq := List.mem_append.mp hn'
    · obtain ⟨l, l', rfl⟩ := List.append_of_mem hn'
      obtain ⟨n₀, hn₀, hid⟩ := hsorted l n' (l' ++ n :: after) (by rw [hnodes]; simp) _ hmem
      exact hnew n₀ (List.mem_append_left _ hn₀) hid
    · rw [List.mem_singleton.mp heq] at hmem
      obtain ⟨n₀, hn₀, hid⟩ := hsorted before n after hnodes _ hmem
      exact hnew n₀ hn₀ hid
  rintro n₀ hn₀ ⟨n', hn', hcopies⟩
  have hne : n₀.id ≠ n.id := by
    intro heq
    rw [heq, hself n' hn'] at hcopies
    exact absurd hcopies Bool.false_ne_true
  unfold Node.eval
  by_cases hwrites : n.copies_to n₀.id = true
  · rw [if_pos (.inr hwrites)]
    exact Node.value_copy_ne_input hwrites mem
  · rw [if_neg (not_or.mpr ⟨hne, hwrites⟩)]
    obtain hn₀ | heq := List.mem_append.mp hn₀
    · obtain hn' | heq := List.mem_append.mp hn'
      · exact h n₀ hn₀ ⟨n', hn', hcopies⟩
      · rw [List.mem_singleton.mp heq] at hcopies
        exact absurd hcopies hwrites
    · exact absurd (congrArg Node.id (List.mem_singleton.mp heq)) hne

theorem reads_of_trace (hmarked : Marked d lookup gm (input_nodes gm) g marks)
    (hsorted : gm.Sorted) {before rest : List (Node F)} (hnodes : gm.nodes = before ++ rest)
    {mem mem' : Nat → Term F} (h : Agrees free gm marks before mem mem')
    (hwritten : Written before mem)
    (htrace : (trace free (marked_nodes marks rest) mem').filter (fun p => p.1 < gm.next) =
      trace free rest mem) :
    ∀ l n l', rest = l ++ n :: l' → ∀ a ∈ n.args, n.copies_to a = false → (marks a).isSome →
      ∀ n' ∈ before ++ l, n'.copies_to a = false := by
  induction rest generalizing before mem mem' with
  | nil => exact fun l n l' hrest => absurd hrest (by simp)
  | cons n rest ih =>
      have hn : n ∈ gm.nodes := by simp [hnodes]
      rw [trace_marked_cons hmarked free hn, trace] at htrace
      obtain ⟨hhead, htail⟩ := List.cons.inj htrace
      have hvalue := (Prod.mk.inj hhead).2
      intro l n₀ l' hrest
      cases l with
      | cons n₁ l =>
          obtain ⟨rfl, rfl⟩ := List.cons.inj hrest
          have hstep := h.step hmarked hsorted hnodes hvalue
          have := ih (by rw [hnodes]; simp) hstep (hwritten.step hsorted hnodes) htail l n₀ l' rfl
          rwa [List.append_assoc, List.singleton_append] at this
      | nil =>
          obtain ⟨rfl, rfl⟩ := List.cons.inj hrest
          rw [List.append_nil]
          intro a ha hcopies hsome n' hn'
          obtain ⟨m, hm⟩ := Option.isSome_iff_exists.mp hsome
          obtain ⟨na, hna, rfl⟩ := hsorted before n rest hnodes a ha
          -- the marker has the first value of the input, so the input is not yet written to
          unfold Node.redirect at hvalue
          rw [n.value_map_args] at hvalue
          have harg := n.value_free_inj hvalue _ ha
          unfold Node.redirect_arg at harg
          rw [if_neg (Bool.eq_false_iff.mp hcopies), hm] at harg
          have hfirst : mem na.id = .input na.id := harg.symm.trans (h.marker na hna m hm)
          rw [Bool.eq_false_iff]
          exact fun hwrites => hwritten na hna ⟨n', hn', hwrites⟩ hfirst

theorem meaning_kept_iff (hmarked : Marked d lookup gm (input_nodes gm) g marks)
    (hsorted : gm.Sorted) : MeaningKept gm g ↔ ReadsFirst gm marks := by
  constructor
  · intro h
    have htrace := h (Term F) free
    rw [hmarked.nodes] at htrace
    intro before n after hnodes
    exact reads_of_trace hmarked hsorted (List.nil_append _).symm (agrees_start free) nofun htrace
      before n after hnodes
  · intro h V I
    rw [hmarked.nodes]
    exact trace_of_reads hmarked hsorted h (List.nil_append _).symm (agrees_start I)

end Meaning

end TTXla.TTTorch.Passes
