import TTXla.Lib.SSA

-- What the removal of calls does to the scopes, the references and the values.
namespace TTXla.SSA

variable {S K V : Type} {removed : S → Bool}

theorem removes_spec {callee : S} {operands results : List ValueId}
    (h : removes removed callee operands results = true) :
    removed callee = true ∧ ∃ x r, operands = [x] ∧ results = [r] := by
  unfold removes at h
  simp only [Bool.and_eq_true, beq_iff_eq] at h
  obtain ⟨⟨hcallee, hoperands⟩, hresults⟩ := h
  obtain ⟨x, rfl⟩ := List.length_eq_one_iff.mp hoperands
  obtain ⟨r, rfl⟩ := List.length_eq_one_iff.mp hresults
  exact ⟨hcallee, x, r, rfl, rfl⟩

section Refs

mutual

theorem Block.refs_inline (b : Block S K) (σ : ValueId → ValueId) :
    (b.inline removed σ).refs = b.other_refs removed := by
  cases b with
  | ret operands => rfl
  | call callee operands results rest =>
      rw [Block.inline, Block.other_refs]
      split
      · exact Block.refs_inline rest _
      · rw [Block.refs, Block.refs_inline rest σ]
  | op kind symbols operands results regions rest =>
      rw [Block.inline, Block.other_refs, Block.refs, Block.refs_inline rest σ,
        Regions.refs_inline regions σ]

theorem Regions.refs_inline (regions : Regions S K) (σ : ValueId → ValueId) :
    (regions.inline removed σ).refs = regions.other_refs removed := by
  cases regions with
  | nil => rfl
  | cons args body rest =>
      rw [Regions.inline, Regions.other_refs, Regions.refs, Block.refs_inline body σ,
        Regions.refs_inline rest σ]

end

mutual

-- No other symbol is referred to than before.
theorem Block.other_refs_subset (b : Block S K) : ∀ s ∈ b.other_refs removed, s ∈ b.refs := by
  cases b with
  | ret operands => exact fun s hs => hs
  | call callee operands results rest =>
      intro s hs
      rw [Block.other_refs] at hs
      rw [Block.refs]
      split at hs
      · exact List.mem_cons_of_mem _ (Block.other_refs_subset rest s hs)
      · obtain rfl | hs := List.mem_cons.mp hs
        · exact List.mem_cons_self
        · exact List.mem_cons_of_mem _ (Block.other_refs_subset rest s hs)
  | op kind symbols operands results regions rest =>
      intro s hs
      rw [Block.other_refs, List.mem_append, List.mem_append] at hs
      rw [Block.refs, List.mem_append, List.mem_append]
      obtain (hs | hs) | hs := hs
      · exact .inl (.inl hs)
      · exact .inl (.inr (Regions.other_refs_subset regions s hs))
      · exact .inr (Block.other_refs_subset rest s hs)

theorem Regions.other_refs_subset (regions : Regions S K) :
    ∀ s ∈ regions.other_refs removed, s ∈ regions.refs := by
  cases regions with
  | nil => exact fun s hs => hs
  | cons args body rest =>
      intro s hs
      rw [Regions.other_refs, List.mem_append] at hs
      rw [Regions.refs, List.mem_append]
      obtain hs | hs := hs
      · exact .inl (Block.other_refs_subset body s hs)
      · exact .inr (Regions.other_refs_subset rest s hs)

end

end Refs

-- Each value in scope has been replaced by one that stays, and the others are untouched.
structure Forwards (scope : List ValueId) (σ : ValueId → ValueId) : Prop where
  mem : ∀ v ∈ scope, σ v ∈ scope
  fixed : ∀ v ∈ scope, σ (σ v) = σ v
  outside : ∀ v, v ∉ scope → σ v = v

namespace Forwards

variable {scope ids : List ValueId} {σ : ValueId → ValueId}

theorem append (h : Forwards scope σ) (hids : Fresh ids scope) : Forwards (ids ++ scope) σ := by
  have hσ : ∀ v ∈ ids, σ v = v := fun v hv => h.outside v (hids.2 v hv)
  refine ⟨fun v hv => ?_, fun v hv => ?_, fun v hv => ?_⟩
  · obtain hv | hv := List.mem_append.mp hv
    · rw [hσ v hv]
      exact List.mem_append_left _ hv
    · exact List.mem_append_right _ (h.mem v hv)
  · obtain hv | hv := List.mem_append.mp hv
    · rw [hσ v hv, hσ v hv]
    · exact h.fixed v hv
  · exact h.outside v fun hscope => hv (List.mem_append_right _ hscope)

theorem forward {x r : ValueId} (h : Forwards scope σ) (hx : x ∈ scope)
    (hr : Fresh [r] scope) : Forwards ([r] ++ scope) (forward σ [x] [r]) := by
  have hr : r ∉ scope := hr.2 r List.mem_cons_self
  have hσx : σ x ∈ scope := h.mem x hx
  have hold : ∀ v ∈ scope, SSA.forward σ [x] [r] v = σ v := by
    intro v hv
    have hne : v ≠ r := fun heq => hr (heq ▸ hv)
    exact Function.update_of_ne hne _ _
  have hnew : SSA.forward σ [x] [r] r = σ x := Function.update_self _ _ _
  refine ⟨fun v hv => ?_, fun v hv => ?_, fun v hv => ?_⟩
  · obtain rfl | hv := List.mem_cons.mp hv
    · rw [hnew]
      exact List.mem_cons_of_mem _ hσx
    · rw [hold v hv]
      exact List.mem_cons_of_mem _ (h.mem v hv)
  · obtain rfl | hv := List.mem_cons.mp hv
    · rw [hnew, hold (σ x) hσx, h.fixed x hx]
    · rw [hold v hv, hold (σ v) (h.mem v hv), h.fixed v hv]
  · have hne : v ≠ r := fun heq => hv (heq ▸ List.mem_cons_self)
    exact (Function.update_of_ne hne _ _).trans
      (h.outside v fun hscope => hv (List.mem_cons_of_mem _ hscope))

end Forwards

section Scopes

variable {scope kept : List ValueId} {σ : ValueId → ValueId}

theorem Fresh.subset {ids : List ValueId} (h : Fresh ids scope) (hkept : ∀ v ∈ kept, v ∈ scope) :
    Fresh ids kept := ⟨h.1, fun v hv hmem => h.2 v hv (hkept v hmem)⟩

theorem subset_append (ids : List ValueId) (hkept : ∀ v ∈ kept, v ∈ scope) :
    ∀ v ∈ ids ++ kept, v ∈ ids ++ scope := by
  intro v hv
  obtain hv | hv := List.mem_append.mp hv
  · exact List.mem_append_left _ hv
  · exact List.mem_append_right _ (hkept v hv)

theorem map_append {ids : List ValueId} (hσ : Forwards scope σ) (hids : Fresh ids scope)
    (hmap : ∀ v ∈ scope, σ v ∈ kept) : ∀ v ∈ ids ++ scope, σ v ∈ ids ++ kept := by
  intro v hv
  obtain hv | hv := List.mem_append.mp hv
  · rw [hσ.outside v (hids.2 v hv)]
    exact List.mem_append_left _ hv
  · exact List.mem_append_right _ (hmap v hv)

mutual

-- `kept` has the values of the scope that are not results of removed calls.
theorem Block.scoped_inline (b : Block S K) {scope kept : List ValueId} {σ : ValueId → ValueId}
    (hσ : Forwards scope σ) (hmap : ∀ v ∈ scope, σ v ∈ kept) (hkept : ∀ v ∈ kept, v ∈ scope)
    (h : b.Scoped scope) : (b.inline removed σ).Scoped kept := by
  have hoperands : ∀ operands : List ValueId, (∀ v ∈ operands, v ∈ scope) →
      ∀ v ∈ operands.map σ, v ∈ kept := by
    intro operands hmem v hv
    obtain ⟨w, hw, rfl⟩ := List.mem_map.mp hv
    exact hmap w (hmem w hw)
  cases b with
  | ret operands => exact hoperands operands h
  | call callee operands results rest =>
      rw [Block.Scoped] at h
      obtain ⟨hmem, hfresh, hrest⟩ := h
      rw [Block.inline]
      split
      · rename_i hremoves
        obtain ⟨-, x, r, rfl, rfl⟩ := removes_spec hremoves
        have hx := hmem x List.mem_cons_self
        refine Block.scoped_inline rest (hσ.forward hx hfresh) (fun v hv => ?_)
          (fun v hv => List.mem_append_right _ (hkept v hv)) hrest
        obtain rfl | hv := List.mem_cons.mp hv
        · rw [show SSA.forward σ [x] [v] v = σ x from Function.update_self _ _ _]
          exact hmap x hx
        · have hne : v ≠ r := fun heq => hfresh.2 r List.mem_cons_self (heq ▸ hv)
          rw [show SSA.forward σ [x] [r] v = σ v from Function.update_of_ne hne _ _]
          exact hmap v hv
      · exact ⟨hoperands operands hmem, hfresh.subset hkept, Block.scoped_inline rest
          (hσ.append hfresh) (map_append hσ hfresh hmap) (subset_append results hkept) hrest⟩
  | op kind symbols operands results regions rest =>
      rw [Block.Scoped] at h
      obtain ⟨hmem, hregions, hfresh, hrest⟩ := h
      exact ⟨hoperands operands hmem, Regions.scoped_inline regions hσ hmap hkept hregions,
        hfresh.subset hkept, Block.scoped_inline rest (hσ.append hfresh)
          (map_append hσ hfresh hmap) (subset_append results hkept) hrest⟩

theorem Regions.scoped_inline (regions : Regions S K) {scope kept : List ValueId}
    {σ : ValueId → ValueId} (hσ : Forwards scope σ) (hmap : ∀ v ∈ scope, σ v ∈ kept)
    (hkept : ∀ v ∈ kept, v ∈ scope) (h : regions.Scoped scope) :
    (regions.inline removed σ).Scoped kept := by
  cases regions with
  | nil => trivial
  | cons args body rest =>
      rw [Regions.Scoped] at h
      obtain ⟨hfresh, hbody, hrest⟩ := h
      exact ⟨hfresh.subset hkept, Block.scoped_inline body (hσ.append hfresh)
        (map_append hσ hfresh hmap) (subset_append args hkept) hbody,
          Regions.scoped_inline rest hσ hmap hkept hrest⟩

end

end Scopes

section Values

variable [Inhabited V] {scope : List ValueId} {σ : ValueId → ValueId} {ρ ρ' : ValueId → V}

-- The values that stay are the same in both programs.
def Agrees (scope : List ValueId) (σ : ValueId → ValueId) (ρ ρ' : ValueId → V) : Prop :=
  ∀ v ∈ scope, σ v = v → ρ' v = ρ v

theorem Agrees.assign (h : Agrees scope σ ρ ρ') (ids : List ValueId) (vs : List V) :
    Agrees (ids ++ scope) σ (assign ρ ids vs) (assign ρ' ids vs) := by
  intro v hv hσ
  unfold SSA.assign
  split
  · rfl
  · rename_i hids
    exact h v ((List.mem_append.mp hv).resolve_left hids) hσ

theorem Agrees.forward {x r : ValueId} (h : Agrees scope σ ρ ρ') (hσ : Forwards scope σ)
    (hx : x ∈ scope) (hr : Fresh [r] scope) (vs : List V) :
    Agrees ([r] ++ scope) (forward σ [x] [r]) (SSA.assign ρ [r] vs) ρ' := by
  intro v hv hfixed
  by_cases heq : v = r
  · subst heq
    rw [show SSA.forward σ [x] [v] v = σ x from Function.update_self _ _ _] at hfixed
    exact absurd (hfixed ▸ hσ.mem x hx) (hr.2 v List.mem_cons_self)
  · rw [show SSA.forward σ [x] [r] v = σ v from Function.update_of_ne heq _ _] at hfixed
    have hscope : v ∈ scope := (List.mem_cons.mp hv).resolve_left heq
    have hassign : SSA.assign ρ [r] vs v = ρ v := if_neg (by simpa using heq)
    rw [hassign]
    exact h v hscope hfixed

-- The operands that are left read the values that the chains started from.
omit [Inhabited V] in
theorem Agrees.operands_iff (h : Agrees scope σ ρ ρ') (hσ : Forwards scope σ)
    {operands : List ValueId} (hmem : ∀ v ∈ operands, v ∈ scope) :
    operands.map ρ = (operands.map σ).map ρ' ↔ ∀ v ∈ operands, ρ v = ρ (σ v) := by
  rw [List.map_map, List.map_inj_left]
  refine forall₂_congr fun v hv => ?_
  have hagree := h (σ v) (hσ.mem v (hmem v hv)) (hσ.fixed v (hmem v hv))
  rw [Function.comp_apply, hagree]

variable (I : Meaning S K V)

mutual

theorem Block.sameUses_iff (b : Block S K) {scope : List ValueId} {σ : ValueId → ValueId}
    {ρ ρ' : ValueId → V} (hσ : Forwards scope σ) (hρ : Agrees scope σ ρ ρ')
    (hscoped : b.Scoped scope) :
    (b.SameUses removed I σ ρ ρ' ↔ b.Returns removed I σ ρ) ∧
      (b.Returns removed I σ ρ → (b.inline removed σ).eval I ρ' = b.eval I ρ) := by
  cases b with
  | ret operands =>
      have hoperands := hρ.operands_iff hσ hscoped
      exact ⟨hoperands, fun h => (hoperands.mpr h).symm⟩
  | call callee operands results rest =>
      rw [Block.Scoped] at hscoped
      obtain ⟨hmem, hfresh, hrest⟩ := hscoped
      rw [Block.SameUses, Block.Returns, Block.inline, Block.eval]
      cases hremoves : removes removed callee operands results with
      | true =>
          obtain ⟨-, x, r, rfl, rfl⟩ := removes_spec hremoves
          have hx := hmem x List.mem_cons_self
          simp only [if_true]
          exact Block.sameUses_iff rest (hσ.forward hx hfresh) (hρ.forward hσ hx hfresh _) hrest
      | false =>
          simp only [Bool.false_eq_true, if_false]
          have hoperands := hρ.operands_iff hσ hmem
          have hrests := fun vs =>
            Block.sameUses_iff rest (hσ.append hfresh) (hρ.assign results vs) hrest
          refine ⟨⟨?_, ?_⟩, ?_⟩
          · rintro ⟨hsame, hrest_same⟩
            rw [← hsame] at hrest_same
            exact ⟨hoperands.mp hsame, (hrests _).1.mp hrest_same⟩
          · rintro ⟨hreturns, hrest_returns⟩
            have hsame := hoperands.mpr hreturns
            rw [← hsame]
            exact ⟨rfl, (hrests _).1.mpr hrest_returns⟩
          · rintro ⟨hreturns, hrest_returns⟩
            rw [Block.eval, ← hoperands.mpr hreturns]
            exact (hrests _).2 hrest_returns
  | op kind symbols operands results regions rest =>
      rw [Block.Scoped] at hscoped
      obtain ⟨hmem, hregions, hfresh, hrest⟩ := hscoped
      have hoperands := hρ.operands_iff hσ hmem
      have hinner := Regions.sameUses_iff regions hσ hρ hregions
      have hrests := fun vs =>
        Block.sameUses_iff rest (hσ.append hfresh) (hρ.assign results vs) hrest
      rw [Block.SameUses, Block.Returns, Block.inline, Block.eval, Block.eval]
      refine ⟨⟨?_, ?_⟩, ?_⟩
      · rintro ⟨hsame, hregions_same, hrest_same⟩
        have hregions_returns := hinner.1.mp hregions_same
        rw [← hsame, hinner.2 hregions_returns] at hrest_same
        exact ⟨hoperands.mp hsame, hregions_returns, (hrests _).1.mp hrest_same⟩
      · rintro ⟨hreturns, hregions_returns, hrest_returns⟩
        have hsame := hoperands.mpr hreturns
        rw [← hsame, hinner.2 hregions_returns]
        exact ⟨rfl, hinner.1.mpr hregions_returns, (hrests _).1.mpr hrest_returns⟩
      · rintro ⟨hreturns, hregions_returns, hrest_returns⟩
        rw [← hoperands.mpr hreturns, hinner.2 hregions_returns]
        exact (hrests _).2 hrest_returns

theorem Regions.sameUses_iff (regions : Regions S K) {scope : List ValueId}
    {σ : ValueId → ValueId} {ρ ρ' : ValueId → V} (hσ : Forwards scope σ)
    (hρ : Agrees scope σ ρ ρ') (hscoped : regions.Scoped scope) :
    (regions.SameUses removed I σ ρ ρ' ↔ regions.Returns removed I σ ρ) ∧
      (regions.Returns removed I σ ρ →
        (regions.inline removed σ).eval I ρ' = regions.eval I ρ) := by
  cases regions with
  | nil => exact ⟨Iff.rfl, fun _ => rfl⟩
  | cons args body rest =>
      rw [Regions.Scoped] at hscoped
      obtain ⟨hfresh, hbody, hrest⟩ := hscoped
      have hbodies := fun vs =>
        Block.sameUses_iff body (hσ.append hfresh) (hρ.assign args vs) hbody
      have hrests := Regions.sameUses_iff rest hσ hρ hrest
      rw [Regions.SameUses, Regions.Returns, Regions.inline, Regions.eval, Regions.eval]
      refine ⟨and_congr (forall_congr' fun vs => (hbodies vs).1) hrests.1, ?_⟩
      rintro ⟨hreturns, hrest_returns⟩
      rw [hrests.2 hrest_returns]
      exact congrArg (· :: _) (funext fun vs => (hbodies vs).2 (hreturns vs))

end

-- Each value in scope is the one that its chain started from.
def Returned (scope : List ValueId) (σ : ValueId → ValueId) (ρ : ValueId → V) : Prop :=
  ∀ v ∈ scope, ρ v = ρ (σ v)

theorem assign_of_fresh {ids : List ValueId} (hids : Fresh ids scope) {v : ValueId}
    (hv : v ∈ scope) (vs : List V) : assign ρ ids vs v = ρ v :=
  if_neg fun hmem => hids.2 v hmem hv

theorem Returned.assign {ids : List ValueId} (h : Returned scope σ ρ) (hσ : Forwards scope σ)
    (hids : Fresh ids scope) (vs : List V) : Returned (ids ++ scope) σ (assign ρ ids vs) := by
  intro v hv
  obtain hv | hv := List.mem_append.mp hv
  · rw [hσ.outside v (hids.2 v hv)]
  · rw [assign_of_fresh hids hv, assign_of_fresh hids (hσ.mem v hv)]
    exact h v hv

theorem Returned.forward {x r : ValueId} (h : Returned scope σ ρ) (hσ : Forwards scope σ)
    (hx : x ∈ scope) (hr : Fresh [r] scope) :
    Returned ([r] ++ scope) (forward σ [x] [r]) (SSA.assign ρ [r] [ρ x]) := by
  intro v hv
  obtain rfl | hv := List.mem_cons.mp hv
  · have hself : SSA.assign ρ [v] [ρ x] v = ρ x := by simp [SSA.assign]
    rw [show SSA.forward σ [x] [v] v = σ x from Function.update_self _ _ _, hself,
      assign_of_fresh hr (hσ.mem x hx)]
    exact h x hx
  · have hne : v ≠ r := fun heq => hr.2 r List.mem_cons_self (heq ▸ hv)
    rw [show SSA.forward σ [x] [r] v = σ v from Function.update_of_ne hne _ _,
      assign_of_fresh hr hv, assign_of_fresh hr (hσ.mem v hv)]
    exact h v hv

mutual

-- Calls of identities return their operands.
theorem Block.returns_of_identity (b : Block S K) {scope : List ValueId}
    {σ : ValueId → ValueId} {ρ : ValueId → V} (hσ : Forwards scope σ)
    (hρ : Returned scope σ ρ) (hscoped : b.Scoped scope)
    (hI : ∀ s ∈ b.refs, removed s = true → ∀ x, I.func s [x] = [x]) :
    b.Returns removed I σ ρ := by
  cases b with
  | ret operands => exact fun v hv => hρ v (hscoped v hv)
  | call callee operands results rest =>
      rw [Block.Scoped] at hscoped
      obtain ⟨hmem, hfresh, hrest⟩ := hscoped
      have hI_rest : ∀ s ∈ rest.refs, removed s = true → ∀ x, I.func s [x] = [x] :=
        fun s hs => hI s (List.mem_cons_of_mem _ hs)
      rw [Block.Returns]
      cases hremoves : removes removed callee operands results with
      | true =>
          obtain ⟨hcallee, x, r, rfl, rfl⟩ := removes_spec hremoves
          have hx := hmem x List.mem_cons_self
          simp only [if_true, List.map_cons, List.map_nil]
          rw [hI callee List.mem_cons_self hcallee]
          exact Block.returns_of_identity rest (hσ.forward hx hfresh) (hρ.forward hσ hx hfresh)
            hrest hI_rest
      | false =>
          simp only [Bool.false_eq_true, if_false]
          exact ⟨fun v hv => hρ v (hmem v hv), Block.returns_of_identity rest (hσ.append hfresh)
            (hρ.assign hσ hfresh _) hrest hI_rest⟩
  | op kind symbols operands results regions rest =>
      rw [Block.Scoped] at hscoped
      obtain ⟨hmem, hregions, hfresh, hrest⟩ := hscoped
      rw [Block.refs] at hI
      refine ⟨fun v hv => hρ v (hmem v hv), ?_, ?_⟩
      · exact Regions.returns_of_identity regions hσ hρ hregions fun s hs =>
          hI s (List.mem_append_left _ (List.mem_append_right _ hs))
      · exact Block.returns_of_identity rest (hσ.append hfresh) (hρ.assign hσ hfresh _) hrest
          fun s hs => hI s (List.mem_append_right _ hs)

theorem Regions.returns_of_identity (regions : Regions S K) {scope : List ValueId}
    {σ : ValueId → ValueId} {ρ : ValueId → V} (hσ : Forwards scope σ)
    (hρ : Returned scope σ ρ) (hscoped : regions.Scoped scope)
    (hI : ∀ s ∈ regions.refs, removed s = true → ∀ x, I.func s [x] = [x]) :
    regions.Returns removed I σ ρ := by
  cases regions with
  | nil => trivial
  | cons args body rest =>
      rw [Regions.Scoped] at hscoped
      obtain ⟨hfresh, hbody, hrest⟩ := hscoped
      rw [Regions.refs] at hI
      refine ⟨fun vs => ?_, ?_⟩
      · exact Block.returns_of_identity body (hσ.append hfresh) (hρ.assign hσ hfresh vs) hbody
          fun s hs => hI s (List.mem_append_left _ hs)
      · exact Regions.returns_of_identity rest hσ hρ hrest
          fun s hs => hI s (List.mem_append_right _ hs)

end

end Values

end TTXla.SSA
