import TTXla.VllmTT.AscendScheduler.Engine
import Mathlib.Tactic.Linarith

-- What is left of the cache when a prefill request is admitted.
namespace TTXla.VllmTT.AscendScheduler

open Excepts (bind_eq_ok)

variable {K LP : Type} {cfg : Config} {base : Base K LP} {groups : Nat}

def evictable (blocks : List KVCacheBlock) : Nat := blocks.countP fun blk => blk.ref_cnt = 0

-- How many blocks `allocate_slots` takes from the free list: the request holds
-- `cdiv(computed + new + lookahead, block_size)` blocks then, of which it held some before, and
-- the cached ones leave the list if nobody else uses them.
def Base.taken (base : Base K LP) (cfg : Config) (kv : K) (id : ReqId) (r : Request) (n k : Nat)
    (blocks : KVCacheBlocks) (l : Nat) : Nat :=
  evictable blocks.flatten + (cdiv (r.num_computed_tokens + k + n + l) cfg.block_size -
    (base.get_blocks kv id).flatten.length - blocks.flatten.length)

-- The allocator as far as the number of free blocks goes.
structure Base.Allocates (base : Base K LP) (cfg : Config) (groups : Nat) : Prop where
  groups : ∀ kv id, (base.get_blocks kv id).length = groups
  succeeds : ∀ kv id r (n k : Nat) blocks l d,
    base.taken cfg kv id r n k blocks l ≤ base.get_num_free_blocks kv →
    (base.allocate_slots kv id r n k (some blocks) l d).2.isSome
  free : ∀ kv id r (n k : Nat) blocks l d,
    (base.allocate_slots kv id r n k (some blocks) l d).2.isSome →
    base.get_num_free_blocks (base.allocate_slots kv id r n k (some blocks) l d).1 +
      base.taken cfg kv id r n k blocks l = base.get_num_free_blocks kv

-- What the prefill loop passes to the check: nothing new for a request whose KV is loaded
-- asynchronously, else the rest of the request and the cached blocks of the first group.
inductive Asks (r : Request) (c : Computed K) : Nat → Option (List KVCacheBlock) → Prop
  | load (h : c.load_kv_async = true) : Asks r c 0 none
  | prefill {blocks : List KVCacheBlock} (h : c.load_kv_async = false)
      (htokens : c.num_computed_tokens < r.num_tokens)
      (hblocks : c.new_computed_blocks.head? = some blocks) :
      Asks r c (r.num_tokens - c.num_computed_tokens) (some blocks)

-- When the check passes and the blocks are allocated, the watermark is left.
def Respects (cfg : Config) (base : Base K LP) (id : ReqId) (r : Request) (c : Computed K)
    (n : Nat) (blocks : Option (List KVCacheBlock)) : Prop :=
  check_watermark_for_prefill cfg base c.kv id r n blocks = true →
    ∀ kv new_blocks, base.allocate_slots c.kv id r (n + c.num_external_computed_tokens)
      c.num_new_local_computed_tokens (some c.new_computed_blocks) cfg.num_lookahead_tokens
      c.load_kv_async = (kv, some new_blocks) →
    cfg.num_blocks * cfg.watermark ≤ (base.get_num_free_blocks kv : ℚ)

-- The blocks that the check expects to be taken.
def predicted (cfg : Config) (groups : Nat) (r : Request) (n : Nat)
    (blocks : List KVCacheBlock) : Int :=
  evictable blocks + (cdiv (n + (r.num_computed_tokens + blocks.length * cfg.block_size))
    cfg.block_size - groups - blocks.length)

-- The tokens that have slots after the allocation.
def slots (cfg : Config) (r : Request) (c : Computed K) : Nat :=
  (if c.load_kv_async then c.num_computed_tokens else r.num_tokens) + cfg.num_lookahead_tokens

-- The blocks that are taken for these slots.
def spent (cfg : Config) (base : Base K LP) (id : ReqId) (r : Request) (c : Computed K) : Nat :=
  evictable c.new_computed_blocks.flatten + (cdiv (slots cfg r c) cfg.block_size -
    (base.get_blocks c.kv id).flatten.length - c.new_computed_blocks.flatten.length)

-- There are enough free blocks, and the watermark lies between what is left of them and what the
-- check expects to be left.
structure Overdraws (cfg : Config) (base : Base K LP) (groups : Nat) (id : ReqId) (r : Request)
    (c : Computed K) (n : Nat) (blocks : Option (List KVCacheBlock)) : Prop where
  enough : spent cfg base id r c ≤ base.get_num_free_blocks c.kv
  left : (base.get_num_free_blocks c.kv : ℚ) < cfg.num_blocks * cfg.watermark +
    spent cfg base id r c
  expected : cfg.num_blocks * cfg.watermark + predicted cfg groups r n (blocks.getD []) ≤
    (base.get_num_free_blocks c.kv : ℚ)

theorem check_watermark_iff (hb : base.Allocates cfg groups) (kv : K) (id : ReqId) (r : Request)
    (n : Nat) (blocks : Option (List KVCacheBlock)) :
    check_watermark_for_prefill cfg base kv id r n blocks = true ↔
      cfg.num_blocks * cfg.watermark + predicted cfg groups r n (blocks.getD []) ≤
        (base.get_num_free_blocks kv : ℚ) := by
  unfold check_watermark_for_prefill predicted evictable
  simp only [hb.groups kv id, decide_eq_true_eq]
  push_cast
  constructor
  · intro h
    linarith
  · intro h
    linarith

-- The allocator is asked for the slots that are counted.
theorem taken_eq_spent (cfg : Config) {kv : K} {id : ReqId} {r : Request} {c : Computed K} {n : Nat}
    {blocks : Option (List KVCacheBlock)} (hc : computed_tokens base kv id r = .ok c)
    (h : Asks r c n blocks) :
    base.taken cfg c.kv id r (n + c.num_external_computed_tokens) c.num_new_local_computed_tokens
      c.new_computed_blocks cfg.num_lookahead_tokens = spent cfg base id r c := by
  have htotal := computed_tokens_total hc
  have hslots : r.num_computed_tokens + c.num_new_local_computed_tokens +
      (n + c.num_external_computed_tokens) + cfg.num_lookahead_tokens = slots cfg r c := by
    unfold slots
    cases h with
    | load hasync =>
        rw [if_pos hasync]
        omega
    | prefill hsync htokens hblocks =>
        rw [if_neg (by simp [hsync])]
        omega
  unfold Base.taken spent
  rw [hslots]

-- In one group the check counts at least one block too few for a request that holds none, when
-- the cached blocks are full.
theorem predicted_lt_spent {id : ReqId} {r : Request} {c : Computed K} {B : List KVCacheBlock}
    (hgroup : c.new_computed_blocks = [B]) (hnone : (base.get_blocks c.kv id).flatten = [])
    (hzero : r.num_computed_tokens = 0) (hsync : c.load_kv_async = false)
    (hfull : B.length * cfg.block_size ≤ c.num_computed_tokens)
    (htokens : c.num_computed_tokens < r.num_tokens) :
    predicted cfg 1 r (r.num_tokens - c.num_computed_tokens) B < spent cfg base id r c := by
  have hmono : cdiv (r.num_tokens - c.num_computed_tokens + (0 + B.length * cfg.block_size))
      cfg.block_size ≤ cdiv (slots cfg r c) cfg.block_size := by
    apply Nat.div_le_div_right
    unfold slots
    rw [if_neg (by simp [hsync])]
    omega
  unfold predicted spent
  rw [hzero, hgroup, hnone]
  simp only [List.flatten_cons, List.flatten_nil, List.append_nil, List.length_nil]
  omega

section Example

-- Allocate so that the request holds `needed` blocks with the cached ones.
def Pool.reserve (pool : Pool) (id : ReqId) (computed : List KVCacheBlock) (needed : Nat) :
    Pool × Option KVCacheBlocks :=
  let num_new_blocks := needed - pool.held id - computed.length
  if evictable computed + num_new_blocks ≤ pool.free then
    ({ free := pool.free - (evictable computed + num_new_blocks)
       held := Function.update pool.held id
         (pool.held id + computed.length + num_new_blocks) },
      some [List.replicate num_new_blocks ⟨1, 1⟩])
  else (pool, none)

theorem Pool.reserve_isSome (pool : Pool) (id : ReqId) (computed : List KVCacheBlock)
    (needed : Nat) : (pool.reserve id computed needed).2.isSome ↔
      evictable computed + (needed - pool.held id - computed.length) ≤ pool.free := by
  unfold Pool.reserve
  dsimp only
  split
  · rename_i hle
    simp [hle]
  · rename_i hlt
    simp [hlt]

theorem Pool.reserve_free (pool : Pool) (id : ReqId) (computed : List KVCacheBlock)
    (needed : Nat) (h : (pool.reserve id computed needed).2.isSome) :
    (pool.reserve id computed needed).1.free +
      (evictable computed + (needed - pool.held id - computed.length)) = pool.free := by
  have hle := (pool.reserve_isSome id computed needed).mp h
  unfold Pool.reserve
  dsimp only
  rw [if_pos hle]
  dsimp only
  omega

-- The pool, with an allocator that counts all slots and all cached blocks.
def cacheBase (cfg : Config) : Base Pool Unit :=
  { poolBase cfg with
    allocate_slots := fun pool id request n k blocks l _ =>
      pool.reserve id (blocks.getD []).flatten
        (cdiv (request.num_computed_tokens + k + n.toNat + l) cfg.block_size) }

theorem cacheBase_taken (cfg : Config) (pool : Pool) (id : ReqId) (r : Request) (n k : Nat)
    (blocks : KVCacheBlocks) (l : Nat) : (cacheBase cfg).taken cfg pool id r n k blocks l =
      evictable blocks.flatten + (cdiv (r.num_computed_tokens + k + n + l) cfg.block_size -
        pool.held id - blocks.flatten.length) := by
  simp [Base.taken, cacheBase, poolBase]

theorem cacheBase_allocates (cfg : Config) : (cacheBase cfg).Allocates cfg 1 where
  groups := fun pool id => rfl
  succeeds := fun pool id r n k blocks l d h => by
    rw [cacheBase_taken] at h
    exact (pool.reserve_isSome id _ _).mpr h
  free := fun pool id r n k blocks l d h => by
    rw [cacheBase_taken]
    exact pool.reserve_free id _ _ h

-- A hundred blocks, of which one is to be left by the default watermark.
def hundredBlocks : Config where
  max_num_scheduled_tokens := 64
  max_num_running_reqs := 4
  max_model_len := 64
  block_size := 16
  num_blocks := 100
  num_lookahead_tokens := 0
  watermark := 1 / 100
  lora_config := none

def threeLeft : Pool := ⟨3, fun id => if id = "other" then 96 else 0⟩

-- A request without cached tokens.
def uncached (pool : Pool) : Computed Pool := ⟨pool, [[]], 0, 0, false, 0⟩

end Example

end TTXla.VllmTT.AscendScheduler
