import Mathlib.Data.List.AList
import Mathlib.Algebra.Ring.Int.Defs
import Mathlib.Algebra.BigOperators.Group.List.Basic

namespace TTXla

-- A Python dict whose iteration order is not observed.
abbrev Dict (κ υ : Type*) := AList fun _ : κ => υ

namespace Dict

variable {κ υ : Type*} [DecidableEq κ]

theorem mem_iff (d : Dict κ υ) (k : κ) : k ∈ d ↔ ∃ v, d.lookup k = some v := by
  rw [← AList.lookup_isSome, Option.isSome_iff_exists]

theorem lookup_insert' (d : Dict κ υ) (k k' : κ) (v : υ) :
    (d.insert k v).lookup k' = if k' = k then some v else d.lookup k' := by
  by_cases h : k' = k
  · subst h; simp
  · simp [h, AList.lookup_insert_ne h]

theorem lookup_erase' (d : Dict κ υ) (k k' : κ) :
    (d.erase k).lookup k' = if k' = k then none else d.lookup k' := by
  by_cases h : k' = k
  · subst h; simp
  · simp [h, AList.lookup_erase_ne h]

theorem mem_iff_of_lookup {d d' : Dict κ υ} {k : κ} {p : Prop} [Decidable p]
    (h : d'.lookup k = if p then none else d.lookup k) : k ∈ d' ↔ k ∈ d ∧ ¬p := by
  rw [mem_iff, mem_iff, h]
  by_cases hp : p <;> simp [hp]

theorem length_keys_insert (d : Dict κ υ) (k : κ) (v : υ) (hk : k ∉ d) :
    (d.insert k v).keys.length = d.keys.length + 1 := by
  rw [AList.keys_insert, List.length_cons, List.erase_of_not_mem (AList.mem_keys.not.mp hk)]

theorem length_keys_insert_mem (d : Dict κ υ) (k : κ) (v : υ) (hk : k ∈ d) :
    (d.insert k v).keys.length = d.keys.length := by
  have hm : k ∈ d.keys := AList.mem_keys.mp hk
  have := List.length_pos_of_mem hm
  rw [AList.keys_insert, List.length_cons, List.length_erase_of_mem hm]
  omega

theorem length_keys_erase (d : Dict κ υ) (k : κ) (hk : k ∈ d) :
    (d.erase k).keys.length + 1 = d.keys.length := by
  have hm : k ∈ d.keys := AList.mem_keys.mp hk
  have := List.length_pos_of_mem hm
  rw [AList.keys_erase, List.length_erase_of_mem hm]
  omega

theorem keys_insert_of_notMem (d : Dict κ υ) (k : κ) (v : υ) (hk : k ∉ d) :
    (d.insert k v).keys = k :: d.keys := by
  rw [AList.keys_insert, List.erase_of_not_mem (AList.mem_keys.not.mp hk)]

section Comprehension

variable {α : Type*} {f : α → κ} {g : α → υ}

theorem lookup_foldl_of_notMem {l : List α} {k : κ} (h : ∀ a ∈ l, f a ≠ k) (d : Dict κ υ) :
    (l.foldl (fun d a => d.insert (f a) (g a)) d).lookup k = d.lookup k := by
  induction l generalizing d with
  | nil => rfl
  | cons a l ih =>
      rw [List.foldl_cons, ih fun b hb => h b (List.mem_cons_of_mem a hb), lookup_insert',
        if_neg fun hk => h a List.mem_cons_self hk.symm]

-- Of the items with one key the last is kept.
theorem lookup_foldl_of_last {l l' : List α} {a : α} (h : ∀ b ∈ l', f b ≠ f a) (d : Dict κ υ) :
    ((l ++ a :: l').foldl (fun d a => d.insert (f a) (g a)) d).lookup (f a) = some (g a) := by
  rw [List.foldl_append, List.foldl_cons, lookup_foldl_of_notMem h, lookup_insert', if_pos rfl]

theorem exists_last_of_mem {l : List α} {k : κ} (h : ∃ a ∈ l, f a = k) :
    ∃ l₁ a l₂, l = l₁ ++ a :: l₂ ∧ f a = k ∧ ∀ b ∈ l₂, f b ≠ k := by
  induction l with
  | nil =>
      obtain ⟨a, ha, _⟩ := h
      exact absurd ha List.not_mem_nil
  | cons b l ih =>
      by_cases hl : ∃ a ∈ l, f a = k
      · obtain ⟨l₁, a, l₂, rfl, ha, hlast⟩ := ih hl
        exact ⟨b :: l₁, a, l₂, rfl, ha, hlast⟩
      · obtain ⟨a, ha, hk⟩ := h
        obtain rfl | ha := List.mem_cons.mp ha
        · exact ⟨[], a, l, rfl, hk, fun c hc hck => hl ⟨c, hc, hck⟩⟩
        · exact absurd ⟨a, ha, hk⟩ hl

end Comprehension

-- `sum(d.values())`.
theorem sum_values_insert (d : Dict κ Int) (k : κ) (v : Int) (hk : k ∉ d) :
    ((d.insert k v).entries.map Sigma.snd).sum = v + (d.entries.map Sigma.snd).sum := by
  rw [AList.entries_insert_of_notMem hk, List.map_cons, List.sum_cons]

-- `d.pop(k, None)` followed by storing a popped value under another key.
def moveKey (d : Dict κ υ) (src dst : κ) : Dict κ υ :=
  match d.lookup src with
  | some v => (d.erase src).insert dst v
  | none => d.erase src

theorem lookup_moveKey (d : Dict κ υ) (src dst k : κ) (hd : d.lookup dst = none) :
    (moveKey d src dst).lookup k =
      if k = dst then d.lookup src else if k = src then none else d.lookup k := by
  unfold moveKey
  cases hs : d.lookup src with
  | some v => simp only [lookup_insert', lookup_erase']
  | none =>
      rw [lookup_erase']
      by_cases hk : k = dst
      · subst hk; simp [hd]
      · simp [hk]

-- Exchange two keys, either of which may be absent.
def swapKeys (d : Dict κ υ) (k₁ k₂ : κ) : Dict κ υ :=
  let put (d : Dict κ υ) (k : κ) : Option υ → Dict κ υ
    | some v => d.insert k v
    | none => d.erase k
  put (put d k₂ (d.lookup k₁)) k₁ (d.lookup k₂)

theorem lookup_swapKeys (d : Dict κ υ) (k₁ k₂ k : κ) :
    (swapKeys d k₁ k₂).lookup k =
      if k = k₁ then d.lookup k₂ else if k = k₂ then d.lookup k₁ else d.lookup k := by
  unfold swapKeys
  cases d.lookup k₁ <;> cases d.lookup k₂ <;>
    simp only [lookup_insert', lookup_erase']

end Dict

end TTXla
