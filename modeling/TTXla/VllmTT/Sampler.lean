import TTXla.Lib.Nucleus
import TTXla.Lib.Options

-- The filters of the sampler, on one row of a batch.
namespace TTXla.VllmTT.Sampler

open TTXla.Nucleus (sorted)

variable {V : Nat} {L R : Type} [LinearOrder R]

-- The logits of a row; `⊥` is the logit `-inf`.
abbrev Logits (V : Nat) (L : Type) := Fin V → WithBot L

def masked_fill (logits : Logits V L) (mask : Fin V → Prop) [DecidablePred mask] : Logits V L :=
  fun i => if mask i then ⊥ else logits i

-- `torch.gather` along a row.
def gather (l : List R) (i : Int) : Option R := if 0 ≤ i then l[i.toNat]? else none

def cumsum [AddMonoid R] (l : List R) : List R :=
  (List.range l.length).map fun i => (l.take (i + 1)).sum

section Filters

variable [Ring R] (softmax : Logits V L → Fin V → R)

def apply_min_p (logits : Logits V L) (min_p : R) : Option (Logits V L) := do
  let probability_values := softmax logits
  let max_probabilities ← (List.ofFn probability_values).max?
  let adjusted_min_p := min_p * max_probabilities
  return masked_fill logits fun i => ¬adjusted_min_p ≤ probability_values i

-- The cutoff of top-k. Where it is disabled the cutoff is `-inf`.
def top_k_cutoff (V : Nat) (probs_sort : List R) (k : Int) : Option (WithBot R) := do
  let top_k_count := min ((V : Int) - k) (V - 1)
  let top_k_cutoff ← gather probs_sort top_k_count
  return if k ≤ 0 ∨ k = V then ⊥ else top_k_cutoff

-- The cutoff of top-p. The last entry is never masked.
def top_p_cutoff (V : Nat) (probs_sort : List R) (p : R) : Option R :=
  let cumprob := cumsum probs_sort
  let top_p_mask := fun i => i ≠ V - 1 ∧ ∀ c ∈ cumprob[i]?, c ≤ 1 - p
  let top_p_count := (List.range V).countP fun i => top_p_mask i
  gather probs_sort top_p_count

-- The two halves of `apply_top_k_top_p`. Without a tensor for `k` or `p` its half is left out
-- for the whole batch.
def discard_top_k (probs : Fin V → R) (logits : Logits V L) :
    Option Int → Option (Logits V L)
  | none => some logits
  | some k => do
      let top_k_cutoff ← top_k_cutoff V (sorted (List.ofFn probs)) k
      return masked_fill logits fun i => (probs i : WithBot R) < top_k_cutoff

def discard_top_p (probs : Fin V → R) (logits : Logits V L) : Option R → Option (Logits V L)
  | none => some logits
  | some p => do
      let top_p_cutoff ← top_p_cutoff V (sorted (List.ofFn probs)) p
      return masked_fill logits fun i => probs i < top_p_cutoff

-- Both compare the probabilities at the entry.
def apply_top_k_top_p (logits : Logits V L) (k : Option Int) (p : Option R) :
    Option (Logits V L) := do
  let probs := softmax logits
  let logits ← discard_top_k probs logits k
  discard_top_p probs logits p

-- The filters in the order in which `sample` applies them.
def apply_filters (logits : Logits V L) (min_p : Option R) (k : Option Int) (p : Option R) :
    Option (Logits V L) := do
  let logits ← match min_p with
    | none => some logits
    | some min_p => apply_min_p softmax logits min_p
  apply_top_k_top_p softmax logits k p

end Filters

end TTXla.VllmTT.Sampler
