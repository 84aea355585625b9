import TTXla.VllmTT.AscendScheduler.Conservation
import TTXla.VllmTT.AscendScheduler.Watermark

-- Whether an idle scheduler takes the request at the head of its queue.
namespace TTXla.VllmTT.AscendScheduler

open Excepts (bind_eq_ok ensure_eq_ok get_eq_ok)

variable {K LP : Type} {cfg : Config} {base : Base K LP} {idle : K → Prop} {groups : Nat}
  {needed : Nat → Nat}

-- The blocks of a request that are computed already, and their tokens.
def Base.Finds (base : Base K LP) (idle : K → Prop) (id : ReqId) (r : Request)
    (blocks : KVCacheBlocks) (k : Nat) : Prop :=
  (∃ kv, idle kv ∧ (base.get_computed_blocks kv id r).2 = (blocks, k)) ∨
    blocks = base.create_empty_block_list ∧ k = 0

-- What vLLM does when all blocks but the null block are free: `idle` are the states of the cache
-- in which they are, and `needed` tells how many blocks a number of tokens takes.
structure Base.Idling (base : Base K LP) (cfg : Config) (idle : K → Prop) (groups : Nat)
    (needed : Nat → Nat) : Prop where
  free : ∀ kv, idle kv → base.get_num_free_blocks kv + 1 = cfg.num_blocks
  groups : ∀ kv id, idle kv → (base.get_blocks kv id).length = groups
  computed : ∀ kv id r, idle kv → idle (base.get_computed_blocks kv id r).1
  hits : ∀ kv id r, idle kv → ∃ blocks rest, (base.get_computed_blocks kv id r).2.1 =
    blocks :: rest ∧ ∀ blk ∈ blocks, blk.ref_cnt = 0
  empty : ∃ rest, base.create_empty_block_list = [] :: rest
  matched : ∀ connector ∈ base.connector, ∀ kv id r n, idle kv →
    idle (connector.get_num_new_matched_tokens kv id r n).1
  allocate : ∀ kv id r n k blocks l d, idle kv → base.Finds idle id r blocks k →
    ((base.allocate_slots kv id r n k (some blocks) l d).2.isSome ↔
      needed (r.num_computed_tokens + k + n.toNat + l) ≤ base.get_num_free_blocks kv)

-- Nothing runs, nothing is forced, and the request at the head waits for nothing else.
structure Idle (cfg : Config) (idle : K → Prop) (s : Scheduler K) (id : ReqId) (w : List ReqId) :
    Prop where
  waiting : s.waiting = id :: w
  running : s.running = []
  mode : s.forced_mode = none
  cache : idle s.kv
  no_remote : (s.objs id).status ≠ .WAITING_FOR_REMOTE_KVS
  no_grammar : (s.objs id).status ≠ .WAITING_FOR_FSM
  lora : exceeds_loras cfg ∅ (s.objs id) = false

-- The call takes the request from the queue at once, to schedule it or to finish it as too long,
-- and a call that returns has done so.
structure Progresses (cfg : Config) (base : Base K LP) (s : Scheduler K) (id : ReqId) : Prop where
  taken : ∃ w p, PrefillStep cfg base (s.waiting, Pass.start cfg s) (w, p) ∧
    (id ∈ p.num_scheduled_tokens ∨ (p.self.objs id).status = .FINISHED_IGNORED)
  returned : ∀ out s', schedule cfg base s = .ok (out, s') →
    id ∈ out.num_scheduled_tokens ∨ (s'.objs id).status = .FINISHED_IGNORED

-- The request is longer than the prompt limit or the cache.
def TooLong (cfg : Config) (limit : Nat) (r : Request) (c : Computed K) : Prop :=
  c.num_computed_tokens + min limit (cfg.num_blocks * cfg.block_size) < r.num_tokens

-- The cached blocks of the first group.
def Computed.blocks (c : Computed K) : List KVCacheBlock := c.new_computed_blocks.head?.getD []

-- The request fits into the step, into the cache above the watermark, and into the free blocks.
structure Fits (cfg : Config) (groups : Nat) (needed : Nat → Nat) (r : Request)
    (c : Computed K) : Prop where
  tokens : c.num_computed_tokens < r.num_tokens
  budget : r.num_tokens ≤ c.num_computed_tokens + cfg.max_num_scheduled_tokens
  watermark : cfg.num_blocks * cfg.watermark +
    (cdiv (r.num_tokens - c.num_computed_tokens + (r.num_computed_tokens +
      c.blocks.length * cfg.block_size)) cfg.block_size + 1 : Nat) ≤ (cfg.num_blocks + groups : Nat)
  blocks : needed (r.num_tokens + cfg.num_lookahead_tokens) < cfg.num_blocks

-- The prompt limit is defined, and the request is above it or fits.
def Serves (cfg : Config) (base : Base K LP) (groups : Nat) (needed : Nat → Nat)
    (s : Scheduler K) (id : ReqId) : Prop :=
  0 < cfg.max_num_scheduled_tokens ∧ 0 < cfg.max_num_running_reqs ∧
    ∃ c limit, computed_tokens base s.kv id (s.objs id) = .ok c ∧ c.load_kv_async = false ∧
      get_prompt_limit cfg (s.objs id) = .ok limit ∧
      (TooLong cfg limit (s.objs id) c ∨ Fits cfg groups needed (s.objs id) c)

section Judge

theorem unblock_ready {kv : K} {id : ReqId} {r : Request}
    (hremote : r.status ≠ .WAITING_FOR_REMOTE_KVS) (hgrammar : r.status ≠ .WAITING_FOR_FSM) :
    unblock base kv id r = (kv, r, true) := by
  unfold unblock
  rw [if_neg hremote]
  simp only [true_and]
  rw [if_neg hgrammar]

-- What is known of the computed tokens when the cache is idle.
structure Looked (base : Base K LP) (idle : K → Prop) (id : ReqId) (r : Request)
    (c : Computed K) : Prop where
  cache : idle c.kv
  found : base.Finds idle id r c.new_computed_blocks c.num_new_local_computed_tokens
  hits : ∃ rest, c.new_computed_blocks = c.blocks :: rest
  evictable : ∀ blk ∈ c.blocks, blk.ref_cnt = 0
  total : c.num_computed_tokens =
    r.num_computed_tokens + c.num_new_local_computed_tokens + c.num_external_computed_tokens

theorem computed_tokens_looked (hb : base.Idling cfg idle groups needed) {kv : K} {id : ReqId}
    {r : Request} {c : Computed K} (hkv : idle kv) (h : computed_tokens base kv id r = .ok c) :
    Looked base idle id r c := by
  have htotal := computed_tokens_total h
  unfold computed_tokens at h
  split at h
  · have hcomputed := hb.computed kv id r hkv
    obtain ⟨blocks, rest, hblocks, hfree⟩ := hb.hits kv id r hkv
    dsimp only at h
    cases hconn : base.connector with
    | none =>
        rw [hconn] at h
        cases h
        refine ⟨hcomputed, .inl ⟨kv, hkv, rfl⟩, ⟨rest, ?_⟩, ?_, htotal⟩
        · simp [Computed.blocks, hblocks]
        · simpa [Computed.blocks, hblocks] using hfree
    | some connector =>
        rw [hconn] at h
        obtain ⟨n, -, h⟩ := bind_eq_ok.mp h
        cases h
        refine ⟨hb.matched connector hconn _ _ _ _ hcomputed, .inl ⟨kv, hkv, rfl⟩, ⟨rest, ?_⟩, ?_,
          htotal⟩
        · simp [Computed.blocks, hblocks]
        · simpa [Computed.blocks, hblocks] using hfree
  · obtain ⟨rest, hempty⟩ := hb.empty
    cases h
    refine ⟨hkv, .inr ⟨rfl, rfl⟩, ⟨rest, ?_⟩, ?_, rfl⟩
    · simp [Computed.blocks, hempty]
    · simp [Computed.blocks, hempty]

-- The watermark, when all blocks are free.
theorem check_watermark_idle (hb : base.Idling cfg idle groups needed) {id : ReqId} {r : Request}
    {c : Computed K} (hc : Looked base idle id r c) (n : Nat) :
    check_watermark_for_prefill cfg base c.kv id r n (some c.blocks) = true ↔
      cfg.num_blocks * cfg.watermark +
        (cdiv (n + (r.num_computed_tokens + c.blocks.length * cfg.block_size)) cfg.block_size +
          1 : Nat) ≤ (cfg.num_blocks + groups : Nat) := by
  have hfree := hb.free c.kv hc.cache
  have hevict : c.blocks.countP (fun blk => blk.ref_cnt = 0) = c.blocks.length := by
    apply List.countP_eq_length.mpr
    intro blk hblk
    exact decide_eq_true (hc.evictable blk hblk)
  unfold check_watermark_for_prefill
  simp only [Option.getD_some, hevict, hb.groups c.kv id hc.cache, decide_eq_true_eq]
  rw [← hfree]
  push_cast
  constructor
  · intro h
    linarith
  · intro h
    linarith

-- The allocation, when all blocks are free.
theorem place_idle (hb : base.Idling cfg idle groups needed) {id : ReqId} {r : Request}
    {c : Computed K} (hc : Looked base idle id r c) (hsync : c.load_kv_async = false)
    (hpos : c.num_computed_tokens < r.num_tokens) :
    (∃ c' n b, (place cfg base id r c (r.num_tokens - c.num_computed_tokens)
      (some c.blocks)).2 = .enter c' n b) ↔
      (cfg.num_blocks * cfg.watermark +
        (cdiv (r.num_tokens - c.num_computed_tokens + (r.num_computed_tokens +
          c.blocks.length * cfg.block_size)) cfg.block_size + 1 : Nat) ≤
            (cfg.num_blocks + groups : Nat) ∧
        needed (r.num_tokens + cfg.num_lookahead_tokens) < cfg.num_blocks) := by
  have halloc := hb.allocate c.kv id r
    (((r.num_tokens - c.num_computed_tokens : Nat) : Int) + c.num_external_computed_tokens)
    c.num_new_local_computed_tokens c.new_computed_blocks cfg.num_lookahead_tokens
    c.load_kv_async hc.cache hc.found
  have hfree := hb.free c.kv hc.cache
  have htotal : r.num_computed_tokens + c.num_new_local_computed_tokens +
      (((r.num_tokens - c.num_computed_tokens : Nat) : Int) +
        c.num_external_computed_tokens).toNat + cfg.num_lookahead_tokens =
      r.num_tokens + cfg.num_lookahead_tokens := by
    have := hc.total
    omega
  rw [htotal] at halloc
  rw [← check_watermark_idle hb hc]
  unfold place
  split
  · rename_i hwater
    dsimp only
    split
    · rename_i hnone
      rw [hnone] at halloc
      simp only [Option.isSome_none, Bool.false_eq_true, false_iff] at halloc
      refine ⟨fun ⟨_, _, _, hv⟩ => (nomatch hv), fun ⟨_, hlt⟩ => absurd ?_ halloc⟩
      omega
    · rename_i new_blocks hsome
      rw [hsome] at halloc
      simp only [Option.isSome_some, true_iff] at halloc
      rw [hsync, if_neg (by simp)]
      refine ⟨fun _ => ⟨hwater, ?_⟩, fun _ => ⟨_, _, _, rfl⟩⟩
      omega
  · rename_i hwater
    exact ⟨fun ⟨_, _, _, hv⟩ => (nomatch hv), fun h => absurd h.1 hwater⟩

-- A request that is taken is served.
theorem serves_of_judge (hb : base.Idling cfg idle groups needed) {s : Scheduler K} {id : ReqId}
    {w : List ReqId} (hs : Idle cfg idle s id w) {token_budget : Int}
    (hbudget : token_budget = cfg.max_num_scheduled_tokens) {kv : K} {r : Request} {v : Verdict}
    (h : judge cfg base s.kv ∅ token_budget id (s.objs id) = .ok (kv, r, v))
    (hv : v = .ignore ∨ ∃ c n b, v = .enter c n b) :
    ∃ c limit, computed_tokens base s.kv id (s.objs id) = .ok c ∧ c.load_kv_async = false ∧
      get_prompt_limit cfg (s.objs id) = .ok limit ∧
      (TooLong cfg limit (s.objs id) c ∨ Fits cfg groups needed (s.objs id) c) := by
  unfold judge at h
  rw [unblock_ready hs.no_remote hs.no_grammar] at h
  simp only [not_true, ite_false, hs.lora, Bool.false_eq_true] at h
  obtain ⟨c, hcomputed, h⟩ := bind_eq_ok.mp h
  have hc := computed_tokens_looked hb hs.cache hcomputed
  split at h
  · rename_i hasync
    obtain ⟨-, -, h⟩ := bind_eq_ok.mp h
    cases h
    rcases hv with hv | ⟨c', n, b, hv⟩
    · exact absurd hv place_ne_ignore
    · have := (place_enter hv).1
      rw [this] at hasync
      cases hasync
  rename_i hsync
  obtain ⟨limit, hlimit, h⟩ := bind_eq_ok.mp h
  refine ⟨c, limit, hcomputed, by simpa using hsync, hlimit, ?_⟩
  split at h
  · rename_i hlong
    left
    unfold TooLong
    omega
  split at h
  · cases h
    simp at hv
  rename_i hroom
  obtain ⟨u, hpos, h⟩ := bind_eq_ok.mp h
  have hpos := ensure_eq_ok.mp hpos
  obtain ⟨blocks, hblocks, h⟩ := bind_eq_ok.mp h
  have hblocks : c.blocks = blocks := by
    rw [Computed.blocks, get_eq_ok.mp hblocks]
    rfl
  subst hblocks
  cases h
  have htokens : c.num_computed_tokens < (s.objs id).num_tokens := by omega
  have hn : (((s.objs id).num_tokens : Int) - c.num_computed_tokens).toNat =
      (s.objs id).num_tokens - c.num_computed_tokens := by omega
  rw [hn] at hv
  rcases hv with hv | hv
  · exact absurd hv place_ne_ignore
  · obtain ⟨hwater, hneeded⟩ := (place_idle hb hc (by simpa using hsync) htokens).mp hv
    exact .inr ⟨htokens, by omega, hwater, hneeded⟩

theorem judge_of_serves (hb : base.Idling cfg idle groups needed) {s : Scheduler K} {id : ReqId}
    {w : List ReqId} (hs : Idle cfg idle s id w) {token_budget : Int}
    (hbudget : token_budget = cfg.max_num_scheduled_tokens) {c : Computed K} {limit : Nat}
    (hcomputed : computed_tokens base s.kv id (s.objs id) = .ok c)
    (hsync : c.load_kv_async = false)
    (hlimit : get_prompt_limit cfg (s.objs id) = .ok limit)
    (h : TooLong cfg limit (s.objs id) c ∨ Fits cfg groups needed (s.objs id) c) :
    ∃ kv v, judge cfg base s.kv ∅ token_budget id (s.objs id) = .ok (kv, s.objs id, v) ∧
      (v = .ignore ∨ ∃ c n b, v = .enter c n b) := by
  have hc := computed_tokens_looked hb hs.cache hcomputed
  obtain ⟨rest, hblocks⟩ := hc.hits
  unfold judge
  rw [unblock_ready hs.no_remote hs.no_grammar]
  simp only [not_true, ite_false, hs.lora, Bool.false_eq_true]
  by_cases hlong : TooLong cfg limit (s.objs id) c
  · refine ⟨c.kv, .ignore, bind_eq_ok.mpr ⟨c, hcomputed, ?_⟩, .inl rfl⟩
    rw [hsync, if_neg (by simp)]
    refine bind_eq_ok.mpr ⟨limit, hlimit, ?_⟩
    unfold TooLong at hlong
    rw [if_pos (by omega)]
    rfl
  · have hfits := h.resolve_left hlong
    have htokens := hfits.tokens
    have hroom := hfits.budget
    obtain ⟨c', n, b, hv⟩ := (place_idle hb hc hsync htokens).mpr
      ⟨hfits.watermark, hfits.blocks⟩
    refine ⟨(place cfg base id (s.objs id) c ((s.objs id).num_tokens - c.num_computed_tokens)
      (some c.blocks)).1, _, bind_eq_ok.mpr ⟨c, hcomputed, ?_⟩, .inr ⟨c', n, b, hv⟩⟩
    rw [hsync, if_neg (by simp)]
    refine bind_eq_ok.mpr ⟨limit, hlimit, ?_⟩
    unfold TooLong at hlong
    rw [if_neg (by omega), if_neg (by omega)]
    refine bind_eq_ok.mpr ⟨(), Excepts.ensure_of (by omega), ?_⟩
    refine bind_eq_ok.mpr ⟨c.blocks, get_eq_ok.mpr (by rw [hblocks]; rfl), ?_⟩
    have hn : (((s.objs id).num_tokens : Int) - c.num_computed_tokens).toNat =
        (s.objs id).num_tokens - c.num_computed_tokens := by omega
    rw [hn]
    rfl

end Judge

section Schedule

variable {s s' : Scheduler K} {id : ReqId} {w : List ReqId}

-- A request that is scheduled from the queue stays scheduled.
theorem PrefillStep.keeps {q q' : List ReqId × Pass K} (h : PrefillStep cfg base q q')
    (hid : id ∈ q.2.num_scheduled_tokens) : id ∈ q'.2.num_scheduled_tokens := by
  cases h with
  | skip hd | ignore hd | load hd => exact hid
  | @enter id' w p p' kv request c n blocks hd henter =>
      have h : (p.setRequest kv id' request).enter cfg id' c n blocks = .ok p' := henter
      dsimp only
      rw [(enter_spec h).counts, AList.mem_insert]
      exact .inr hid

theorem prefillSteps_keeps {q q' : List ReqId × Pass K} (h : PrefillSteps cfg base q q')
    (hid : id ∈ q.2.num_scheduled_tokens) : id ∈ q'.2.num_scheduled_tokens := by
  induction h with
  | refl => exact hid
  | tail _ hstep ih => exact hstep.keeps ih

theorem PrefillEnds.counts {w : List ReqId} {p p' : Pass K} (h : PrefillEnds cfg base w p p') :
    p'.num_scheduled_tokens = p.num_scheduled_tokens := by
  cases h with
  | done | stop hd => rfl

theorem enter_ok (cfg : Config) {p : Pass K} (c n : Nat) (blocks : KVCacheBlocks)
    (h : (p.self.objs id).status = .WAITING ∨ (p.self.objs id).status = .PREEMPTED) :
    ∃ p', p.enter cfg id c n blocks = .ok p' := by
  unfold Pass.enter
  dsimp only
  rcases h with h | h
  · rw [h]
    exact ⟨_, rfl⟩
  · rw [h]
    exact ⟨_, rfl⟩

theorem serves_of_taken (hb : base.Idling cfg idle groups needed) (hc : Consistent s)
    (hs : Idle cfg idle s id w) {w' : List ReqId} {p : Pass K}
    (h : PrefillStep cfg base (s.waiting, Pass.start cfg s) (w', p))
    (htaken : id ∈ p.num_scheduled_tokens ∨ (p.self.objs id).status = .FINISHED_IGNORED) :
    Serves cfg base groups needed s id := by
  have hstatus : (s.objs id).status.is_waiting := by
    apply hc.waiting_status id
    rw [hs.waiting]
    exact List.mem_cons_self
  have hdecides : ∀ {kv r v}, Decides cfg base (Pass.start cfg s) id kv r v →
      (v = .ignore ∨ ∃ c n b, v = .enter c n b) → Serves cfg base groups needed s id := by
    intro kv r v hd hv
    have hbudget : (0 : Int) < cfg.max_num_scheduled_tokens := hd.budget
    have hroom : s.running.length ≠ cfg.max_num_running_reqs := hd.room
    rw [hs.running] at hroom
    exact ⟨by omega, Nat.pos_of_ne_zero hroom.symm, serves_of_judge hb hs rfl hd.judge hv⟩
  rw [hs.waiting] at h
  cases h with
  | @skip _ _ _ kv request hd =>
      -- the request is put back as it was
      have hwaiting := (judge_spec hd.judge).waiting hstatus
      rcases htaken with hkey | hignored
      · exact absurd hkey (AList.notMem_empty _)
      · change (Function.update s.objs id request id).status = _ at hignored
        rw [Function.update_self] at hignored
        rw [hignored] at hwaiting
        cases hwaiting
  | @load _ _ _ kv request hd =>
      rcases htaken with hkey | hignored
      · exact absurd hkey (AList.notMem_empty _)
      · change (Function.update (Function.update s.objs id request) id _ id).status = _ at hignored
        rw [Function.update_self] at hignored
        cases hignored
  | ignore hd => exact hdecides hd (.inl rfl)
  | enter hd henter => exact hdecides hd (.inr ⟨_, _, _, rfl⟩)

theorem taken_of_serves (hb : base.Idling cfg idle groups needed) (hc : Consistent s)
    (hs : Idle cfg idle s id w) (h : Serves cfg base groups needed s id) :
    ∃ p, PrefillStep cfg base (s.waiting, Pass.start cfg s) (w, p) ∧
      (id ∈ p.num_scheduled_tokens ∨ (p.self.objs id).status = .FINISHED_IGNORED) := by
  have hstatus : (s.objs id).status.is_waiting := by
    apply hc.waiting_status id
    rw [hs.waiting]
    exact List.mem_cons_self
  obtain ⟨hbudget, hroom, c, limit, hcomputed, hsync, hlimit, hor⟩ := h
  obtain ⟨kv, v, hjudge, hv⟩ := judge_of_serves hb hs rfl hcomputed hsync hlimit hor
  have hd : Decides cfg base (Pass.start cfg s) id kv (s.objs id) v := by
    refine ⟨?_, ?_, ?_, hjudge⟩
    · exact Int.natCast_pos.mpr hbudget
    · change s.forced_mode ≠ _
      rw [hs.mode]
      exact nofun
    · change s.running.length ≠ _
      rw [hs.running]
      exact (Nat.pos_iff_ne_zero.mp hroom).symm
  rw [hs.waiting]
  rcases hv with rfl | ⟨c', n, b, rfl⟩
  · refine ⟨_, .ignore hd, .inr ?_⟩
    simp [Pass.ignore, Pass.setStatus, Pass.setRequest, Scheduler.setRequest]
  · have hready : (s.objs id).status = .WAITING ∨ (s.objs id).status = .PREEMPTED := by
      cases hst : (s.objs id).status with
      | WAITING => exact .inl rfl
      | PREEMPTED => exact .inr rfl
      | WAITING_FOR_FSM => exact absurd hst hs.no_grammar
      | WAITING_FOR_REMOTE_KVS => exact absurd hst hs.no_remote
      | _ =>
          rw [hst] at hstatus
          cases hstatus
    have hself : ((Pass.start cfg s).setRequest kv id (s.objs id)).self.objs id = s.objs id :=
      Function.update_self ..
    obtain ⟨p, henter⟩ := enter_ok cfg c' n b (by rwa [hself])
    refine ⟨p, .enter hd henter, .inl ?_⟩
    rw [(enter_spec henter).counts]
    exact AList.mem_insert _ |>.mpr (.inl rfl)

-- What the first iteration has taken, a call that returns reports.
theorem returned_of_taken (hc : Consistent s) (hs : Idle cfg idle s id w) {p : Pass K}
    {out : Output} (h : PrefillStep cfg base (s.waiting, Pass.start cfg s) (w, p))
    (htaken : id ∈ p.num_scheduled_tokens ∨ (p.self.objs id).status = .FINISHED_IGNORED)
    (hsched : schedule cfg base s = .ok (out, s')) :
    id ∈ out.num_scheduled_tokens ∨ (s'.objs id).status = .FINISHED_IGNORED := by
  have hroom : s.running.length ≤ cfg.max_num_running_reqs := by
    rw [hs.running]
    exact Nat.zero_le _
  have hnot : id ∉ w := by
    have hnodup := (List.nodup_append.mp hc.nodup).1
    rw [hs.waiting] at hnodup
    exact (List.nodup_cons.mp hnodup).1
  obtain ⟨pf, hsched⟩ := schedule_spec hsched
  obtain ⟨p₁, hp₁, hloops⟩ := bind_eq_ok.mp hsched.loops
  have hloop := prefill_loop_step h
  dsimp only at hloop
  rw [hp₁] at hloop
  obtain ⟨w₁, p₂, hsteps, hends⟩ := prefill_loop_steps hloop.symm
  obtain ⟨w₂, hpref, hcons⟩ := prefill_loop_spec hc hroom hp₁
  obtain ⟨hobj, hnot₁⟩ := prefillSteps_other hsteps hnot
  rcases htaken with hkey | hignored
  · left
    have hkey₁ : id ∈ p₁.num_scheduled_tokens := by
      rw [hends.counts]
      exact prefillSteps_keeps hsteps hkey
    -- as something is scheduled, there is no decode loop
    have hsome : p₁.putBack.self.scheduled_req_ids ≠ ∅ := by
      have hmem : id ∈ p₁.putBack.self.scheduled_req_ids :=
        (hpref.scheduled id).mpr (.inr hkey₁)
      exact Finset.ne_empty_of_mem hmem
    dsimp only at hloops
    rw [if_neg fun hboth => hsome hboth.1] at hloops
    cases hloops
    rw [hsched.counts]
    exact hkey₁
  · right
    have hstatus : (p₁.self.objs id).status = .FINISHED_IGNORED := by
      rw [hends.other hnot₁, hobj, hignored]
    rw [hsched.status]
    dsimp only at hloops
    split at hloops
    · rcases decode_loop_status hloops id with hsame | ⟨hrun, -⟩
      · exact hsame.trans hstatus
      · have := hpref.queued.running_status id hrun
        change (p₁.self.objs id).status = _ at this
        rw [hstatus] at this
        cases this
    · cases hloops
      exact hstatus

end Schedule

section Example

def Pool.Unused (cfg : Config) (pool : Pool) : Prop :=
  pool.free + 1 = cfg.num_blocks ∧ ∀ id, pool.held id = 0

theorem cacheBase_idling (cfg : Config) :
    (cacheBase cfg).Idling cfg (Pool.Unused cfg) 1 (fun n => cdiv n cfg.block_size) where
  free := fun pool h => h.1
  groups := fun pool id h => rfl
  computed := fun pool id r h => h
  hits := fun pool id r h => ⟨[], [], rfl, by simp⟩
  empty := ⟨[], rfl⟩
  matched := fun connector hconn => by cases hconn
  allocate := fun pool id r n k blocks l d h hfound => by
    have hempty : blocks.flatten = [] := by
      rcases hfound with ⟨pool', -, heq⟩ | ⟨heq, -⟩
      · cases heq
        rfl
      · rw [heq]
        rfl
    change (pool.reserve id blocks.flatten _).2.isSome ↔ _ ≤ pool.free
    rw [Pool.reserve_isSome, h.2 id, hempty]
    simp [evictable]

-- Three usable blocks of sixteen tokens.
def threeUsable : Config where
  max_num_scheduled_tokens := 64
  max_num_running_reqs := 2
  max_model_len := 64
  block_size := 16
  num_blocks := 4
  num_lookahead_tokens := 0
  watermark := 1 / 100
  lora_config := none

-- A scheduler with one request.
def oneWaiting (n : Nat) : Scheduler Pool where
  waiting := ["req"]
  running := []
  requests := {"req"}
  objs := fun _ => newRequest (List.replicate n 1)
  scheduled_req_ids := ∅
  finished_req_ids := []
  forced_mode := none
  kv := ⟨3, fun _ => 0⟩

theorem oneWaiting_consistent (n : Nat) : Consistent (oneWaiting n) := by
  refine ⟨by simp [oneWaiting], by simp [oneWaiting], fun id _ => rfl, by simp [oneWaiting], ?_⟩
  simp [oneWaiting]

theorem oneWaiting_idle (n : Nat) :
    Idle threeUsable (Pool.Unused threeUsable) (oneWaiting n) "req" [] :=
  ⟨rfl, rfl, rfl, ⟨rfl, fun _ => rfl⟩, nofun, nofun, rfl⟩

end Example

end TTXla.VllmTT.AscendScheduler
