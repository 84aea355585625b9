import TTXla.VllmTT.ModelRunner
import TTXla.VllmTT.UpdateStates.Theorems
import Mathlib.Data.Nat.Bitwise
import Mathlib.Order.WithBot

-- The grammar bitmask on the logits of a batch.
namespace TTXla.VllmTT

namespace Runner

variable {T : Type} {α : Type} [Bot α]

-- Power-of-2 masks. The words of a bitmask are read as unsigned.
def structured_decode_bitmasks : List Nat := (List.range 32).map fun i => 1 <<< i

def allowed_tokens (vocab_size : Nat) (grammar_bitmask : List Nat) : List Bool :=
  (grammar_bitmask.flatMap fun word =>
    structured_decode_bitmasks.map fun bit => decide (word &&& bit ≠ 0)).take vocab_size

-- One row; `⊥` is `-inf`.
def apply_grammar_bitmask (vocab_size : Nat) (logits : List α) (grammar_bitmask : List Nat) :
    List α :=
  List.zipWith (fun allowed logit => if allowed then logit else ⊥)
    (allowed_tokens vocab_size grammar_bitmask) logits

-- The rows that require structured output have a bitmask.
def structured_decode (vocab_size : Nat) (grammar_bitmask : Nat → Option (List Nat))
    (logits : List (List α)) : List (List α) :=
  logits.mapIdx fun i row =>
    match grammar_bitmask i with
    | some mask => apply_grammar_bitmask vocab_size row mask
    | none => row

def constrain_logits (b : InputBatch T) (vocab_size : Nat) (grammar_output : GrammarOutput)
    (logits : List (List α)) : Option (List (List α)) := do
  let grammar_bitmask ← prepare_structured_decoding_input b grammar_output
  return structured_decode vocab_size grammar_bitmask logits

-- Every listed request has a row of the bitmask, and every row of the batch its logits.
structure Shaped (b : InputBatch T) (vocab_size : Nat) (grammar_output : GrammarOutput)
    (logits : List (List α)) : Prop where
  rows : grammar_output.grammar_bitmask.length =
    grammar_output.structured_output_request_ids.length
  words : ∀ mask ∈ grammar_output.grammar_bitmask, mask.length = cdiv vocab_size 32
  batch : b.num_reqs ≤ logits.length
  logits : ∀ row ∈ logits, row.length = vocab_size

-- The logits of the listed requests are those that their own rows of the bitmask allow.
structure Constrained (b : InputBatch T) (vocab_size : Nat) (grammar_output : GrammarOutput)
    (logits result : List (List α)) : Prop where
  listed : ∀ (j : Nat) (id : ReqId) (i : Nat) (mask : List Nat) (row : List α),
    grammar_output.structured_output_request_ids[j]? = some id →
    b.req_id_to_index.lookup id = some i → grammar_output.grammar_bitmask[j]? = some mask →
    logits[i]? = some row → ∃ row', result[i]? = some row' ∧ row'.length = vocab_size ∧
      ∀ v < vocab_size, row'[v]? =
        if (mask.getD (v / 32) 0).testBit (v % 32) then row[v]? else some ⊥
  others : ∀ i, (∀ id ∈ grammar_output.structured_output_request_ids,
    b.req_id_to_index.lookup id ≠ some i) → result[i]? = logits[i]?

theorem length_allowed_tokens {vocab_size : Nat} {mask : List Nat}
    (h : mask.length = cdiv vocab_size 32) :
    (allowed_tokens vocab_size mask).length = vocab_size := by
  have hwords : ∀ mask : List Nat, (mask.flatMap fun word =>
      structured_decode_bitmasks.map fun bit => decide (word &&& bit ≠ 0)).length =
      mask.length * 32 := by
    intro mask
    induction mask with
    | nil => rfl
    | cons word mask ih =>
        rw [List.flatMap_cons, List.length_append, ih, List.length_cons, List.length_map]
        have hbits : structured_decode_bitmasks.length = 32 := rfl
        omega
  unfold allowed_tokens
  rw [List.length_take, hwords, h]
  unfold cdiv
  omega

-- Token `v` is bit `v % 32` of word `v / 32`.
theorem getElem?_allowed_tokens {vocab_size : Nat} {mask : List Nat}
    (h : mask.length = cdiv vocab_size 32) {v : Nat} (hv : v < vocab_size) :
    (allowed_tokens vocab_size mask)[v]? =
      some ((mask.getD (v / 32) 0).testBit (v % 32)) := by
  have hbit : ∀ (word i : Nat), i < 32 →
      (structured_decode_bitmasks.map fun bit => decide (word &&& bit ≠ 0))[i]? =
        some (word.testBit i) := by
    intro word i hi
    have hland : decide (word &&& 1 <<< i ≠ 0) = word.testBit i := by
      rw [Bool.eq_iff_iff, decide_eq_true_iff, Nat.one_shiftLeft, Nat.and_two_pow]
      cases word.testBit i with
      | false => simp
      | true => simp
    unfold structured_decode_bitmasks
    rw [List.map_map, List.getElem?_map, List.getElem?_range hi, Option.map_some, ← hland]
    rfl
  have hwords : ∀ (mask : List Nat) (v : Nat), v < mask.length * 32 →
      (mask.flatMap fun word => structured_decode_bitmasks.map fun bit =>
        decide (word &&& bit ≠ 0))[v]? = some ((mask.getD (v / 32) 0).testBit (v % 32)) := by
    intro mask
    induction mask with
    | nil =>
        intro v hv
        simp at hv
    | cons word mask ih =>
        intro v hv
        have hlen : (structured_decode_bitmasks.map fun bit =>
            decide (word &&& bit ≠ 0)).length = 32 := rfl
        rw [List.flatMap_cons]
        rcases Nat.lt_or_ge v 32 with hlt | hge
        · rw [List.getElem?_append_left (by omega), hbit word v hlt, Nat.div_eq_of_lt hlt,
            Nat.mod_eq_of_lt hlt]
          rfl
        · rw [List.length_cons] at hv
          rw [List.getElem?_append_right (by omega), hlen, ih (v - 32) (by omega)]
          have hdiv : v / 32 = (v - 32) / 32 + 1 := by omega
          have hmod : v % 32 = (v - 32) % 32 := by omega
          rw [hdiv, hmod, List.getD_cons_succ]
  unfold allowed_tokens
  rw [List.getElem?_take_of_lt hv]
  apply hwords
  rw [h]
  unfold cdiv
  omega

-- The request is in the batch.
def Listed (b : InputBatch T) (id : ReqId) : Bool := (b.req_id_to_index.lookup id).isSome

-- One listed request: its row, if it has one, gets the next row of the bitmask.
def fill_row (b : InputBatch T) (grammar_bitmask : List (List Nat))
    (s : (Nat → Option (List Nat)) × Nat) (req_id : ReqId) :
    Option ((Nat → Option (List Nat)) × Nat) :=
  match b.req_id_to_index.lookup req_id with
  | none => some s
  | some batch_index => do
      let row ← grammar_bitmask[s.2]?
      return (Function.update s.1 batch_index (some row), s.2 + 1)

theorem fill_rows [BlockTable T] {b : InputBatch T} (hb : b.Full) {ids : List ReqId}
    (hnodup : ids.Nodup) {grammar_bitmask : List (List Nat)}
    (hlen : ids.length ≤ grammar_bitmask.length) :
    ∃ masks, ids.foldlM (fill_row b grammar_bitmask) (fun _ => none, 0) =
        some (masks, (ids.filter (Listed b)).length) ∧
      (∀ i, (∀ id ∈ ids, b.req_id_to_index.lookup id ≠ some i) → masks i = none) ∧
      ∀ (j : Nat) (id : ReqId) (i : Nat), ids[j]? = some id →
        b.req_id_to_index.lookup id = some i →
        masks i = grammar_bitmask[((ids.take j).filter (Listed b)).length]? := by
  induction ids using List.reverseRecOn with
  | nil => exact ⟨fun _ => none, rfl, fun _ _ => rfl, fun j id i hj => by simp at hj⟩
  | append_singleton ids id ih =>
      obtain ⟨hinit, -, hdisjoint⟩ := List.nodup_append'.mp hnodup
      have hnew : id ∉ ids := fun hmem => hdisjoint hmem (List.mem_singleton.mpr rfl)
      rw [List.length_append, List.length_singleton] at hlen
      obtain ⟨masks, hmasks, hnone, hsome⟩ := ih hinit (by omega)
      have htake : ∀ j, j ≤ ids.length → (ids ++ [id]).take j = ids.take j := by
        intro j hj
        rw [List.take_append_of_le_length hj]
      rw [List.foldlM_append, hmasks]
      cases hlookup : b.req_id_to_index.lookup id with
      | none =>
          have hout : Listed b id = false := by
            unfold Listed
            rw [hlookup]
            rfl
          have hfilter : (ids ++ [id]).filter (Listed b) = ids.filter (Listed b) := by
            rw [List.filter_append, List.filter_cons_of_neg (by simp [hout]), List.filter_nil,
              List.append_nil]
          refine ⟨masks, ?_, ?_, ?_⟩
          · rw [hfilter]
            simp only [Option.bind_eq_bind, Option.bind_some, List.foldlM_cons,
              List.foldlM_nil, fill_row, hlookup]
            rfl
          · intro i hi
            exact hnone i fun id' hid' => hi id' (List.mem_append_left _ hid')
          · intro j id' i hj hi
            rcases Nat.lt_or_ge j ids.length with hlt | hge
            · rw [List.getElem?_append_left hlt] at hj
              rw [htake j hlt.le]
              exact hsome j id' i hj hi
            · obtain ⟨rfl, -⟩ : id' = id ∧ True := by
                rw [List.getElem?_append_right hge] at hj
                have hmem := List.mem_of_getElem? hj
                exact ⟨List.mem_singleton.mp hmem, trivial⟩
              rw [hlookup] at hi
              cases hi
      | some batch_index =>
          have hin : Listed b id = true := by
            unfold Listed
            rw [hlookup]
            rfl
          have hfilter : (ids ++ [id]).filter (Listed b) = ids.filter (Listed b) ++ [id] := by
            rw [List.filter_append, List.filter_cons_of_pos hin, List.filter_nil]
          have hcount : (ids.filter (Listed b)).length < grammar_bitmask.length :=
            Nat.lt_of_le_of_lt (List.length_filter_le _ _) (by omega)
          refine ⟨Function.update masks batch_index
            (some grammar_bitmask[(ids.filter (Listed b)).length]), ?_, ?_, ?_⟩
          · rw [hfilter]
            simp only [Option.bind_eq_bind, Option.bind_some, List.foldlM_cons,
              List.foldlM_nil, fill_row, hlookup]
            rw [List.getElem?_eq_getElem hcount]
            simp
          · intro i hi
            have hne : i ≠ batch_index := by
              rintro rfl
              exact hi id (List.mem_append_right _ (List.mem_singleton.mpr rfl)) hlookup
            rw [Function.update_of_ne hne]
            exact hnone i fun id' hid' => hi id' (List.mem_append_left _ hid')
          · intro j id' i hj hi
            rcases Nat.lt_or_ge j ids.length with hlt | hge
            · rw [List.getElem?_append_left hlt] at hj
              -- two requests do not share a row
              have hne : i ≠ batch_index := by
                rintro rfl
                have hi' := (hb.indexed.inverse id' i).mp hi
                have hid' := (hb.indexed.inverse id i).mp hlookup
                rw [hi'] at hid'
                obtain rfl : id' = id := by simpa using hid'
                exact hnew (List.mem_of_getElem? hj)
              rw [Function.update_of_ne hne, htake j hlt.le]
              exact hsome j id' i hj hi
            · have hj' : j = ids.length := by
                have hlt := (List.getElem?_eq_some_iff.mp hj).1
                rw [List.length_append, List.length_singleton] at hlt
                omega
              subst hj'
              rw [List.getElem?_append_right (Nat.le_refl _), Nat.sub_self] at hj
              obtain rfl : id = id' := Option.some.inj hj
              rw [hlookup] at hi
              obtain rfl : batch_index = i := Option.some.inj hi
              rw [Function.update_self, htake _ (Nat.le_refl _), List.take_length,
                List.getElem?_eq_getElem hcount]

theorem prepare_spec [BlockTable T] {b : InputBatch T} (hb : b.Full) {ids : List ReqId}
    (hnodup : ids.Nodup) {grammar_bitmask : List (List Nat)}
    (hlen : ids.length ≤ grammar_bitmask.length) :
    ∃ masks, prepare_structured_decoding_input b ⟨ids, grammar_bitmask⟩ = some masks ∧
      (∀ i, (∀ id ∈ ids, b.req_id_to_index.lookup id ≠ some i) → masks i = none) ∧
      ∀ (j : Nat) (id : ReqId) (i : Nat), ids[j]? = some id →
        b.req_id_to_index.lookup id = some i →
        masks i = grammar_bitmask[((ids.take j).filter (Listed b)).length]? := by
  obtain ⟨masks, hmasks, hrest⟩ := fill_rows hb hnodup hlen
  refine ⟨masks, ?_, hrest⟩
  have hprepare : prepare_structured_decoding_input b ⟨ids, grammar_bitmask⟩ =
      (ids.foldlM (fill_row b grammar_bitmask) (fun _ => none, 0)).map Prod.fst := rfl
  rw [hprepare, hmasks]
  rfl

theorem apply_spec {vocab_size : Nat} {mask : List Nat} {row : List α}
    (hmask : mask.length = cdiv vocab_size 32) (hrow : row.length = vocab_size) :
    (apply_grammar_bitmask vocab_size row mask).length = vocab_size ∧
      ∀ v < vocab_size, (apply_grammar_bitmask vocab_size row mask)[v]? =
        if (mask.getD (v / 32) 0).testBit (v % 32) then row[v]? else some ⊥ := by
  unfold apply_grammar_bitmask
  refine ⟨by rw [List.length_zipWith, length_allowed_tokens hmask, hrow, Nat.min_self], ?_⟩
  intro v hv
  rw [List.getElem?_zipWith, getElem?_allowed_tokens hmask hv,
    List.getElem?_eq_getElem (hrow ▸ hv)]
  cases (mask.getD (v / 32) 0).testBit (v % 32) with
  | false => rfl
  | true => rfl

theorem getElem?_structured_decode (vocab_size : Nat) (masks : Nat → Option (List Nat))
    (logits : List (List α)) (i : Nat) :
    (structured_decode vocab_size masks logits)[i]? = logits[i]?.map fun row =>
      match masks i with
      | some mask => apply_grammar_bitmask vocab_size row mask
      | none => row := by
  unfold structured_decode
  rw [List.getElem?_mapIdx]

-- No listed request that is absent from the batch stands before one that is in it.
def AbsentLast (b : InputBatch T) (ids : List ReqId) : Prop :=
  ∀ (i j : Nat) (id id' : ReqId), i < j → ids[i]? = some id → ids[j]? = some id' →
    Listed b id' → Listed b id

theorem AbsentLast.length_filter_take {b : InputBatch T} {ids : List ReqId}
    (h : AbsentLast b ids) {j : Nat} {id : ReqId} (hj : ids[j]? = some id)
    (hid : Listed b id) : ((ids.take j).filter (Listed b)).length = j := by
  obtain ⟨hlt, -⟩ := List.getElem?_eq_some_iff.mp hj
  have hall : ∀ id' ∈ ids.take j, Listed b id' = true := by
    intro id' hid'
    obtain ⟨i, hi⟩ := List.mem_iff_getElem?.mp hid'
    have hij : i < j := by
      have hlen := (List.getElem?_eq_some_iff.mp hi).1
      rw [List.length_take] at hlen
      omega
    rw [List.getElem?_take_of_lt hij] at hi
    exact h i j id' id hij hi hj hid
  rw [List.filter_eq_self.mpr hall, List.length_take]
  omega

-- The mask of every listed request reaches its row, if the absent ones come last.
theorem constrained_of_absentLast [BlockTable T] {b : InputBatch T} (hb : b.Full)
    {ids : List ReqId} (hnodup : ids.Nodup) (h : AbsentLast b ids) {vocab_size : Nat}
    {grammar_bitmask : List (List Nat)} {logits : List (List α)}
    (hshaped : Shaped b vocab_size ⟨ids, grammar_bitmask⟩ logits) :
    ∃ result, constrain_logits b vocab_size ⟨ids, grammar_bitmask⟩ logits = some result ∧
      Constrained b vocab_size ⟨ids, grammar_bitmask⟩ logits result := by
  obtain ⟨masks, hmasks, hnone, hsome⟩ := prepare_spec hb hnodup (Nat.le_of_eq hshaped.rows.symm)
  refine ⟨structured_decode vocab_size masks logits, ?_, ?_, ?_⟩
  · unfold constrain_logits
    rw [hmasks]
    rfl
  · intro j id i mask row hj hi hmask hrow
    have hid : Listed b id = true := by
      unfold Listed
      rw [hi]
      rfl
    have hown := hsome j id i hj hi
    rw [h.length_filter_take hj hid] at hown
    have hspec := apply_spec (hshaped.words mask (List.mem_of_getElem? hmask))
      (hshaped.logits row (List.mem_of_getElem? hrow))
    refine ⟨apply_grammar_bitmask vocab_size row mask, ?_, hspec⟩
    rw [getElem?_structured_decode, hrow, hown, hmask]
    rfl
  · intro i hi
    rw [getElem?_structured_decode, hnone i hi]
    cases logits[i]? with
    | none => rfl
    | some row => rfl

-- One request is allowed everything, and the others nothing.
def one_allowed (vocab_size rows j : Nat) : List (List Nat) :=
  (List.range rows).map fun i =>
    List.replicate (cdiv vocab_size 32) (if i = j then 2 ^ 32 - 1 else 0)

-- The claim for every bitmask and all logits.
theorem constrained_iff [BlockTable T] [Nontrivial α] {b : InputBatch T} (hb : b.Full)
    {ids : List ReqId} (hnodup : ids.Nodup) {vocab_size : Nat} (hvocab : 0 < vocab_size) :
    (∀ (grammar_bitmask : List (List Nat)) (logits : List (List α)),
      Shaped b vocab_size ⟨ids, grammar_bitmask⟩ logits →
      ∃ result, constrain_logits b vocab_size ⟨ids, grammar_bitmask⟩ logits = some result ∧
        Constrained b vocab_size ⟨ids, grammar_bitmask⟩ logits result) ↔ AbsentLast b ids := by
  constructor
  · intro h i j id id' hij hi hj hid'
    by_contra hid
    obtain ⟨a, ha⟩ := exists_ne (⊥ : α)
    obtain ⟨row, hrow⟩ := Option.isSome_iff_exists.mp hid'
    have hshaped : Shaped b vocab_size ⟨ids, one_allowed vocab_size ids.length j⟩
        (List.replicate b.num_reqs (List.replicate vocab_size a)) := by
      refine ⟨by simp [one_allowed], ?_, by simp, ?_⟩
      · intro mask hmask
        obtain ⟨k, -, rfl⟩ := List.mem_map.mp hmask
        exact List.length_replicate
      · intro logits hlogits
        rw [List.eq_of_mem_replicate hlogits, List.length_replicate]
    obtain ⟨result, hresult, hconstrained⟩ := h _ _ hshaped
    obtain ⟨masks, hmasks, -, hsome⟩ := prepare_spec hb hnodup (Nat.le_of_eq hshaped.rows.symm)
    have hlt : j < ids.length := (List.getElem?_eq_some_iff.mp hj).1
    -- the row of the bitmask that the request gets is not its own
    have hcount : ((ids.take j).filter (Listed b)).length < j := by
      have hmem : id ∈ ids.take j := by
        rw [← List.getElem?_take_of_lt hij] at hi
        exact List.mem_of_getElem? hi
      have hless := List.length_filter_lt_length_iff_exists.mpr ⟨id, hmem, hid⟩
      rw [List.length_take] at hless
      omega
    have hmask : ∀ k < ids.length, (one_allowed vocab_size ids.length j)[k]? =
        some (List.replicate (cdiv vocab_size 32) (if k = j then 2 ^ 32 - 1 else 0)) := by
      intro k hk
      unfold one_allowed
      rw [List.getElem?_map, List.getElem?_range hk, Option.map_some]
    have hzero := hsome j id' row hj hrow
    rw [hmask _ (by omega), if_neg (by omega)] at hzero
    have hlogits : (List.replicate b.num_reqs (List.replicate vocab_size a))[row]? =
        some (List.replicate vocab_size a) := by
      rw [List.getElem?_replicate, if_pos (hb.lt_num_reqs hrow)]
    have hown := hmask j hlt
    rw [if_pos rfl] at hown
    obtain ⟨row', hrow', -, hbits⟩ := hconstrained.listed j id' row _ _ hj hrow hown hlogits
    have hresult' : result = structured_decode vocab_size masks
        (List.replicate b.num_reqs (List.replicate vocab_size a)) := by
      unfold constrain_logits at hresult
      rw [hmasks] at hresult
      exact (Option.some.inj hresult).symm
    rw [hresult', getElem?_structured_decode, hlogits, hzero] at hrow'
    have hmasklen : (List.replicate (cdiv vocab_size 32) 0).length = cdiv vocab_size 32 :=
      List.length_replicate
    have hrowlen : (List.replicate vocab_size a).length = vocab_size := List.length_replicate
    have hspec := apply_spec hmasklen hrowlen
    have hwords : 0 < cdiv vocab_size 32 := by
      unfold cdiv
      omega
    have hleft := hbits 0 hvocab
    have hright := hspec.2 0 hvocab
    rw [← Option.some.inj hrow'] at hleft
    change (apply_grammar_bitmask vocab_size _ _)[0]? = _ at hleft
    rw [hright] at hleft
    have hfull : (List.replicate (cdiv vocab_size 32) (2 ^ 32 - 1)).getD (0 / 32) 0 =
        2 ^ 32 - 1 := by
      rw [Nat.zero_div, List.getD_eq_getElem _ _ (by simpa using hwords),
        List.getElem_replicate]
    have hempty : (List.replicate (cdiv vocab_size 32) 0).getD (0 / 32) 0 = 0 := by
      rw [Nat.zero_div, List.getD_eq_getElem _ _ (by simpa using hwords),
        List.getElem_replicate]
    rw [hfull, hempty, Nat.zero_mod, Nat.zero_testBit, if_neg Bool.false_ne_true,
      if_pos (by decide), List.getElem?_replicate, if_pos hvocab] at hleft
    exact ha (Option.some.inj hleft).symm
  · intro h grammar_bitmask logits hshaped
    exact constrained_of_absentLast hb hnodup h hshaped

section Example

-- A batch of one request, B.
def batchOfB : InputBatch DenseTable := { InputBatch.init oneGroup with
  req_ids := [some "B"]
  req_id_to_index := (∅ : Dict ReqId Nat).insert "B" 0
  req_output_token_ids := [none] }

theorem batchOfB_full : batchOfB.Full where
  indexed := by
    refine ⟨fun id i => ?_, rfl⟩
    change ((∅ : Dict ReqId Nat).insert "B" 0).lookup id = some i ↔ [some "B"][i]? = some (some id)
    rw [Dict.lookup_insert', AList.lookup_empty]
    by_cases hid : id = "B"
    · subst hid
      cases i with
      | zero => simp
      | succ i => simp
    · cases i with
      | zero => simp [hid, Ne.symm hid]
      | succ i => simp [hid]
  nodup := List.nodup_nil
  vacant := by
    intro i
    change [some "B"][i]? = some none ↔ _
    cases i with
    | zero => simp
    | succ i => simp
  count := rfl

theorem batchOfB_listed : Listed batchOfB "B" = true ∧ Listed batchOfB "A" = false := ⟨rfl, rfl⟩

theorem batchOfB_constrained :
    ∃ result, constrain_logits batchOfB 1 ⟨["B", "A"], [[1], [0]]⟩ [[(5 : WithBot Int)]] =
        some result ∧
      Constrained batchOfB 1 ⟨["B", "A"], [[1], [0]]⟩ [[(5 : WithBot Int)]] result := by
  have habsent : AbsentLast batchOfB ["B", "A"] := by
    intro i j id id' hij hi hj hid'
    have hlt : j < 2 := (List.getElem?_eq_some_iff.mp hj).1
    obtain rfl : j = 1 := by omega
    obtain rfl : "A" = id' := Option.some.inj hj
    rw [batchOfB_listed.2] at hid'
    cases hid'
  have hshaped : Shaped batchOfB 1 ⟨["B", "A"], [[1], [0]]⟩ [[(5 : WithBot Int)]] :=
    ⟨rfl, by decide, by decide, by simp⟩
  exact (constrained_iff batchOfB_full (by decide) (by decide)).mpr habsent _ _ hshaped

-- A is listed first and is absent: B gets the row of A, which allows nothing.
theorem absentFirst_not_constrained :
    batchOfB.Full ∧ ["A", "B"].Nodup ∧
    Shaped batchOfB 1 ⟨["A", "B"], [[0], [1]]⟩ [[(5 : WithBot Int)]] ∧
    ¬∃ result, constrain_logits batchOfB 1 ⟨["A", "B"], [[0], [1]]⟩ [[(5 : WithBot Int)]] =
        some result ∧
      Constrained batchOfB 1 ⟨["A", "B"], [[0], [1]]⟩ [[(5 : WithBot Int)]] result := by
  refine ⟨batchOfB_full, by decide, ⟨rfl, by decide, by decide, by simp⟩, ?_⟩
  intro h
  obtain ⟨result, hresult, hconstrained⟩ := h
  have hmasked : constrain_logits batchOfB 1 ⟨["A", "B"], [[0], [1]]⟩ [[(5 : WithBot Int)]] =
      some [[⊥]] := rfl
  rw [hmasked] at hresult
  obtain rfl := Option.some.inj hresult
  obtain ⟨row, hrow, -, hbits⟩ := hconstrained.listed 1 "B" 0 [1] [5] rfl rfl rfl rfl
  obtain rfl : [⊥] = row := Option.some.inj hrow
  have hkept : some (⊥ : WithBot Int) = some 5 := hbits 0 (by decide)
  exact WithBot.bot_ne_coe (Option.some.inj hkept)

end Example

end Runner

end TTXla.VllmTT
