import TTXla.Lib.Dict
import Mathlib.Data.List.ReduceOption

-- A slot table: rows that hold an id or are vacant, and the index from ids to rows.
namespace TTXla.Slots

variable {ι : Type*} [DecidableEq ι]

-- The index is the inverse of the occupied rows.
def Inverse (rows : List (Option ι)) (index : Dict ι Nat) : Prop :=
  ∀ id i, index.lookup id = some i ↔ rows[i]? = some (some id)

-- Every row is occupied.
def Compact (rows : List (Option ι)) : Prop := none ∉ rows

variable {rows : List (Option ι)} {index : Dict ι Nat}

namespace Inverse

theorem lt (h : Inverse rows index) {id : ι} {i : Nat} (hi : index.lookup id = some i) :
    i < rows.length := by
  have := (h id i).mp hi
  by_contra hn
  rw [List.getElem?_eq_none (by omega)] at this
  cases this

theorem unique (h : Inverse rows index) {id id' : ι} {i : Nat}
    (hi : index.lookup id = some i) (hi' : index.lookup id' = some i) : id = id' := by
  have := ((h id i).mp hi).symm.trans ((h id' i).mp hi')
  simpa using this

theorem nil : Inverse ([] : List (Option ι)) ∅ := by
  intro id i; simp

-- Vacate the row of an id.
theorem erase (h : Inverse rows index) {id : ι} {i : Nat} (hi : index.lookup id = some i) :
    Inverse (rows.set i none) (index.erase id) := by
  intro id' j
  have hlt := h.lt hi
  rw [Dict.lookup_erase', List.getElem?_set]
  by_cases hj : i = j
  · subst hj
    simp only [ite_true, hlt, Option.some.injEq, reduceCtorEq, iff_false]
    intro hc
    split at hc
    · cases hc
    · rename_i hne; exact hne (h.unique hc hi)
  · simp only [hj, ite_false]
    rw [← h id' j]
    split
    · rename_i he
      subst he
      simp [hi, hj]
    · rfl

-- Give a vacant row to a fresh id.
theorem fill (h : Inverse rows index) {id : ι} {i : Nat} (hid : id ∉ index)
    (hi : rows[i]? = some none) : Inverse (rows.set i (some id)) (index.insert id i) := by
  intro id' j
  have hlt : i < rows.length := (List.getElem?_eq_some_iff.mp hi).1
  rw [Dict.lookup_insert', List.getElem?_set]
  by_cases hj : i = j
  · subst hj
    simp only [ite_true, hlt, Option.some.injEq]
    constructor
    · intro hc
      split at hc
      · rename_i he; exact he.symm
      · have := (h id' i).mp hc
        rw [hi] at this
        simp at this
    · rintro rfl; simp
  · simp only [hj, ite_false]
    rw [← h id' j]
    split
    · rename_i he
      subst he
      simp [hj, AList.lookup_eq_none.mpr hid]
    · rfl

-- Open a new row at the end for a fresh id.
theorem append (h : Inverse rows index) {id : ι} (hid : id ∉ index) :
    Inverse (rows ++ [some id]) (index.insert id rows.length) := by
  intro id' j
  rw [Dict.lookup_insert']
  by_cases hj : j < rows.length
  · rw [List.getElem?_append_left hj, ← h id' j]
    split
    · rename_i he
      subst he
      simp [AList.lookup_eq_none.mpr hid]; omega
    · rfl
  · rw [List.getElem?_append_right (by omega)]
    by_cases he : j = rows.length
    · subst he
      simp only [Nat.sub_self, List.getElem?_cons_zero, Option.some.injEq]
      constructor
      · intro hc
        split at hc
        · rename_i hid'; exact hid'.symm
        · exact absurd (h.lt hc) (by omega)
      · rintro rfl; simp
    · have hn : ([some id] : List (Option ι))[j - rows.length]? = none :=
        List.getElem?_eq_none (by simp; omega)
      rw [hn]
      constructor
      · intro hc
        split at hc
        · cases hc; omega
        · exact absurd (h.lt hc) (by omega)
      · intro hc; cases hc

-- Move the occupant of one row to a vacant row.
theorem move (h : Inverse rows index) {id : ι} {src dst : Nat}
    (hs : rows[src]? = some (some id)) (hd : rows[dst]? = some none) :
    Inverse ((rows.set dst (some id)).set src none) (index.insert id dst) := by
  intro id' j
  have hls : src < rows.length := (List.getElem?_eq_some_iff.mp hs).1
  have hld : dst < rows.length := (List.getElem?_eq_some_iff.mp hd).1
  have hne : src ≠ dst := by rintro rfl; rw [hs] at hd; simp at hd
  rw [Dict.lookup_insert', List.getElem?_set, List.getElem?_set]
  simp only [List.length_set, hls, hld, ite_true]
  by_cases hj : src = j
  · subst hj
    simp only [ite_true, Option.some.injEq, reduceCtorEq, iff_false]
    intro hc
    split at hc
    · exact hne (Option.some.inj hc).symm
    · rename_i hn
      exact hn (h.unique hc ((h id src).mpr hs))
  · simp only [hj, ite_false]
    by_cases hjd : dst = j
    · subst hjd
      simp only [ite_true, Option.some.injEq]
      constructor
      · intro hc
        split at hc
        · rename_i he; exact he.symm
        · have := (h id' dst).mp hc
          rw [hd] at this
          simp at this
      · rintro rfl; simp
    · simp only [hjd, ite_false]
      rw [← h id' j]
      split
      · rename_i he
        subst he
        have := (h id' src).mpr hs
        simp [this, hjd, hj]
      · rfl

-- Drop vacant rows at the end.
theorem take (h : Inverse rows index) {n : Nat}
    (hn : ∀ i id, rows[i]? = some (some id) → i < n) : Inverse (rows.take n) index := by
  intro id i
  rw [h id i, List.getElem?_take]
  constructor
  · intro hc; simp [hn i id hc, hc]
  · intro hc
    split at hc
    · exact hc
    · cases hc

-- Exchange two occupied rows.
theorem swap (h : Inverse rows index) {id id' : ι} {i j : Nat}
    (hi : rows[i]? = some (some id)) (hj : rows[j]? = some (some id')) :
    Inverse ((rows.set i (some id')).set j (some id)) ((index.insert id j).insert id' i) := by
  intro k l
  have hli : i < rows.length := (List.getElem?_eq_some_iff.mp hi).1
  have hlj : j < rows.length := (List.getElem?_eq_some_iff.mp hj).1
  have hii := (h id i).mpr hi
  have hjj := (h id' j).mpr hj
  have hidx : i = j ↔ id = id' := by
    constructor
    · rintro rfl; exact h.unique hii hjj
    · rintro rfl; exact Option.some.inj (hii.symm.trans hjj)
  rw [Dict.lookup_insert', Dict.lookup_insert', List.getElem?_set, List.getElem?_set]
  simp only [List.length_set, hli, hlj, ite_true]
  by_cases hk' : k = id'
  · subst hk'
    by_cases hk : k = id
    · have := hidx.mpr hk.symm
      subst this; subst hk
      have hkl := h k l
      simp only [ite_true, Option.some.injEq]
      constructor
      · rintro rfl; simp
      · intro hc
        split at hc
        · rename_i he; exact he
        · rw [← hkl, hii] at hc; exact Option.some.inj hc
    · have hij : ¬i = j := fun he => hk (hidx.mp he).symm
      simp only [ite_true, Option.some.injEq]
      constructor
      · rintro rfl
        simp [Ne.symm hij]
      · intro hc
        split at hc
        · simp at hc; exact absurd hc.symm hk
        · split at hc
          · assumption
          · rw [← h k l, hjj] at hc
            cases hc; contradiction
  · simp only [hk', ite_false]
    by_cases hk : k = id
    · subst hk
      simp only [ite_true, Option.some.injEq]
      constructor
      · rintro rfl; simp
      · intro hc
        split at hc
        · assumption
        · split at hc
          · simp at hc; exact absurd hc.symm hk'
          · rw [← h k l, hii] at hc
            cases hc; contradiction
    · simp only [hk, ite_false]
      rw [h k l]
      constructor
      · intro hc
        have h1 : ¬j = l := by
          rintro rfl; rw [hj] at hc; simp at hc; exact hk' hc.symm
        have h2 : ¬i = l := by
          rintro rfl; rw [hi] at hc; simp at hc; exact hk hc.symm
        simp [h1, h2, hc]
      · intro hc
        split at hc
        · simp at hc; exact absurd hc.symm hk
        · split at hc
          · simp at hc; exact absurd hc.symm hk'
          · exact hc

-- The ids in the rows are the keys of the index, each once.
theorem ids_perm (h : Inverse rows index) : rows.reduceOption.Perm index.keys := by
  have hnodup : rows.reduceOption.Nodup := by
    rw [List.reduceOption, List.Nodup, List.pairwise_filterMap, List.pairwise_iff_getElem]
    rintro i j hi hj hlt a ha b hb rfl
    have hia := (h a i).mpr (by rw [List.getElem?_eq_getElem hi]; simpa using ha)
    have hjb := (h a j).mpr (by rw [List.getElem?_eq_getElem hj]; simpa using hb)
    rw [hia] at hjb
    cases hjb
    omega
  refine (List.perm_ext_iff_of_nodup hnodup index.keys_nodup).mpr fun x => ?_
  rw [← AList.mem_keys, Dict.mem_iff, List.reduceOption, List.mem_filterMap]
  constructor
  · rintro ⟨o, ho, hx⟩
    obtain ⟨i, hi⟩ := List.mem_iff_getElem?.mp ho
    exact ⟨i, (h x i).mpr (by rw [hi]; simpa using hx)⟩
  · rintro ⟨i, hi⟩
    exact ⟨some x, List.mem_iff_getElem?.mpr ⟨i, (h x i).mp hi⟩, rfl⟩

theorem length_keys (h : Inverse rows index) :
    index.keys.length = rows.reduceOption.length := h.ids_perm.length_eq.symm

end Inverse

omit [DecidableEq ι] in
-- When the occupied rows are the first `n`, there are `n` of them.
theorem length_reduceOption_of_iff (rows : List (Option ι)) (n : Nat) (hn : n ≤ rows.length)
    (h : ∀ i, rows[i]? = some none ↔ n ≤ i ∧ i < rows.length) :
    rows.reduceOption.length = n := by
  induction rows generalizing n with
  | nil => simp at hn; simp [hn]
  | cons o rows ih =>
      cases n with
      | zero =>
          have h0 : o = none := by simpa using (h 0).mpr ⟨by omega, by simp⟩
          have hrest := ih 0 (by omega) fun i => by
            have := h (i + 1)
            simpa using this
          rw [h0, List.reduceOption_cons_of_none, hrest]
      | succ n =>
          have h0 : o ≠ none := by
            intro he
            have := (h 0).mp (by simp [he])
            omega
          obtain ⟨x, rfl⟩ := Option.ne_none_iff_exists'.mp h0
          have hrest := ih n (by simpa using hn) fun i => by
            have := h (i + 1)
            simpa using this
          rw [List.reduceOption_cons_of_some, List.length_cons, hrest]

-- The largest row at or below a bound that is not vacant.
def lastOccupied (vacant : List Nat) : Nat → Option Nat
  | 0 => if 0 ∈ vacant then none else some 0
  | n + 1 => if n + 1 ∈ vacant then lastOccupied vacant n else some (n + 1)

theorem lastOccupied_spec (vacant : List Nat) (last i : Nat) (hi : i ≤ last) (hv : i ∉ vacant) :
    ∃ l, lastOccupied vacant last = some l ∧ l ≤ last ∧ l ∉ vacant ∧
      ∀ j, l < j → j ≤ last → j ∈ vacant := by
  induction last with
  | zero =>
      obtain rfl : i = 0 := by omega
      exact ⟨0, by simp [lastOccupied, hv], Nat.le_refl _, hv, fun j _ _ => by omega⟩
  | succ n ih =>
      by_cases hm : n + 1 ∈ vacant
      · have hne : i ≠ n + 1 := by rintro rfl; exact hv hm
        obtain ⟨l, hl, hle, hlv, hj⟩ := ih (by omega)
        refine ⟨l, by simp [lastOccupied, hm, hl], by omega, hlv, fun j h1 h2 => ?_⟩
        by_cases he : j = n + 1
        · exact he ▸ hm
        · exact hj j h1 (by omega)
      · exact ⟨n + 1, by simp [lastOccupied, hm], Nat.le_refl _, hm, fun j _ _ => by omega⟩

section Compaction

variable {σ : Type*}

-- Fill the vacant rows, smallest first, from the largest occupied row, until the
-- two pointers meet.
def compact (move : σ → Nat → Nat → σ) : σ → Nat → List Nat → σ
  | s, _, [] => s
  | s, last, dst :: vacant =>
      match lastOccupied (dst :: vacant) last with
      | none => s
      | some src => if src ≤ dst then s else compact move (move s src dst) (src - 1) vacant

-- Two tables whose moves correspond are filled alike.
theorem compact_rel {τ : Type*} {R : σ → τ → Prop} {move : σ → Nat → Nat → σ}
    {move' : τ → Nat → Nat → τ}
    (hmove : ∀ s t src dst, R s t → R (move s src dst) (move' t src dst)) {s : σ} {t : τ}
    (h : R s t) (last : Nat) (vacant : List Nat) :
    R (compact move s last vacant) (compact move' t last vacant) := by
  induction vacant generalizing s t last with
  | nil => exact h
  | cons dst vacant ih =>
      unfold compact
      cases lastOccupied (dst :: vacant) last with
      | none => exact h
      | some src =>
          dsimp only
          split
          · exact h
          · exact ih (hmove s t src dst h) (src - 1)

-- The vacant rows up to `last` are the listed ones, and every row above is vacant.
structure Plan (rows : List (Option ι)) (last : Nat) (vacant : List Nat) : Prop where
  last_lt : last < rows.length
  above : ∀ j, last < j → j < rows.length → rows[j]? = some none
  below : ∀ j, j ≤ last → (rows[j]? = some none ↔ j ∈ vacant)
  ascending : vacant.Pairwise (· < ·)
  occupied : ∃ j ≤ last, j ∉ vacant

omit [DecidableEq ι] in
theorem Plan.move {last : Nat} {vacant : List Nat} {src dst : Nat} {id : ι}
    (h : Plan rows last (dst :: vacant)) (hlt : dst < src) (hle : src ≤ last)
    (hj : ∀ j, src < j → j ≤ last → j ∈ dst :: vacant) :
    Plan ((rows.set dst (some id)).set src none) (src - 1) vacant := by
  have hl := h.last_lt
  have hasc := List.pairwise_cons.mp h.ascending
  have hdst : dst ∉ vacant := fun hm => Nat.lt_irrefl _ (hasc.1 dst hm)
  refine ⟨by simp; omega, ?_, ?_, hasc.2, dst, by omega, hdst⟩
  · intro j h1 h2
    simp only [List.length_set] at h2
    by_cases he : src = j
    · subst he
      rw [List.getElem?_set_self (by simpa using h2)]
    · rw [List.getElem?_set_ne he, List.getElem?_set_ne (by omega)]
      by_cases hjl : j ≤ last
      · exact (h.below j hjl).mpr (hj j (by omega) hjl)
      · exact h.above j (by omega) h2
  · intro j h1
    rw [List.getElem?_set_ne (by omega), List.getElem?_set]
    by_cases he : dst = j
    · subst he
      have : dst < rows.length := by omega
      simp [this, hdst]
    · simp only [he, ite_false]
      rw [h.below j (by omega)]
      simp [Ne.symm he]

omit [DecidableEq ι] in
-- What each move preserves holds after compaction, and the occupied rows are then
-- the leading ones.
theorem compact_rule (move : σ → Nat → Nat → σ) (rowsOf : σ → List (Option ι)) (P : σ → Prop)
    (hmove : ∀ s src dst id, P s → dst < src → (rowsOf s)[src]? = some (some id) →
      (rowsOf s)[dst]? = some none →
      rowsOf (move s src dst) = ((rowsOf s).set dst (some id)).set src none ∧
        P (move s src dst))
    (s : σ) (last : Nat) (vacant : List Nat) (hplan : Plan (rowsOf s) last vacant) (hP : P s) :
    P (compact move s last vacant) ∧
      (rowsOf (compact move s last vacant)).length = (rowsOf s).length ∧
      ∃ n, n ≤ (rowsOf s).length ∧ ∀ i, (rowsOf (compact move s last vacant))[i]? = some none ↔
        n ≤ i ∧ i < (rowsOf s).length := by
  induction vacant generalizing s last with
  | nil =>
      refine ⟨hP, rfl, last + 1, hplan.last_lt, fun i => ?_⟩
      simp only [compact]
      by_cases hi : i ≤ last
      · have := hplan.below i hi
        simp only [List.not_mem_nil, iff_false] at this
        simp only [this, false_iff]
        omega
      · constructor
        · intro hc
          exact ⟨by omega, (List.getElem?_eq_some_iff.mp hc).1⟩
        · intro hc; exact hplan.above i (by omega) hc.2
  | cons dst vacant ih =>
      obtain ⟨j, hjl, hjv⟩ := hplan.occupied
      obtain ⟨src, hs, hle, hsv, hgap⟩ := lastOccupied_spec (dst :: vacant) last j hjl hjv
      have hl := hplan.last_lt
      have hasc := List.pairwise_cons.mp hplan.ascending
      have hne : src ≠ dst := by rintro rfl; exact hsv List.mem_cons_self
      simp only [compact, hs]
      split
      · rename_i hsd
        -- the smallest vacant row lies above `src`, so the rows up to `src` are full
        refine ⟨hP, rfl, src + 1, by omega, fun i => ?_⟩
        by_cases hi : i ≤ src
        · have hnv : i ∉ dst :: vacant := by
            intro hm
            rcases List.mem_cons.mp hm with rfl | hm
            · omega
            · have := hasc.1 i hm; omega
          simp only [hplan.below i (by omega), hnv, false_iff]
          omega
        · constructor
          · intro hc
            exact ⟨by omega, (List.getElem?_eq_some_iff.mp hc).1⟩
          · intro hc
            by_cases hil : i ≤ last
            · exact (hplan.below i hil).mpr (hgap i (by omega) hil)
            · exact hplan.above i (by omega) hc.2
      · rename_i hsd
        have hrs : ∃ id, (rowsOf s)[src]? = some (some id) := by
          have hlt : src < (rowsOf s).length := by omega
          cases ho : (rowsOf s)[src] with
          | none =>
              exact absurd ((hplan.below src hle).mp (by rw [List.getElem?_eq_getElem hlt, ho])) hsv
          | some id => exact ⟨id, by rw [List.getElem?_eq_getElem hlt, ho]⟩
        obtain ⟨id, hid⟩ := hrs
        have hd : (rowsOf s)[dst]? = some none :=
          (hplan.below dst (by omega)).mpr List.mem_cons_self
        obtain ⟨hrows, hP'⟩ := hmove s src dst id hP (by omega) hid hd
        have hp : Plan (((rowsOf s).set dst (some id)).set src none) (src - 1) vacant :=
          hplan.move (by omega) hle hgap
        obtain ⟨h1, h2, n, hn, h3⟩ := ih (move s src dst) (src - 1) (hrows ▸ hp) hP'
        have hlen : (rowsOf (move s src dst)).length = (rowsOf s).length := by simp [hrows]
        rw [hlen] at h2 hn h3
        exact ⟨h1, h2, n, hn, h3⟩

end Compaction

end TTXla.Slots
