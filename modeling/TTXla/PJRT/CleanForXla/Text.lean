import TTXla.PJRT.CleanForXla
import TTXla.PJRT.CleanForXla.HloSharding

-- The text of a sharding is read back.
namespace TTXla.PJRT.CleanForXla

open Syntax

theorem interleave_toList (l : List Nat) :
    (interleave l).toList = [','].intercalate (l.map fun n => (toString n).toList) := by
  unfold interleave
  rw [String.toList_intercalate, List.map_map]
  rfl

theorem numbers_interleave {l : List Nat} (hl : l ≠ []) :
    numbers (interleave l).toList = some l := by
  have hcomma : ∀ text ∈ l.map fun n => (toString n).toList, ',' ∉ text := by
    intro text htext
    obtain ⟨n, -, rfl⟩ := List.mem_map.mp htext
    exact not_mem_toString rfl n
  unfold numbers
  rw [interleave_toList, List.splitOn_intercalate ',' hcomma (by simpa using hl)]
  clear hl hcomma
  induction l with
  | nil => rfl
  | cons n l ih => rw [List.map_cons, List.mapM_cons, number_toString, ih]; rfl

theorem not_mem_interleave {c : Char} (hdigit : c.isDigit = false) (hcomma : c ≠ ',')
    (l : List Nat) : c ∉ (interleave l).toList := by
  rw [interleave_toList]
  induction l with
  | nil => exact List.not_mem_nil
  | cons n l ih =>
      have hn := not_mem_toString hdigit n
      cases l with
      | nil => simpa using hn
      | cons m l =>
          rw [List.map_cons, List.map_cons, List.intercalate_cons_cons]
          rw [List.map_cons] at ih
          intro h
          rcases List.mem_append.mp h with h | h
          · rcases List.mem_append.mp h with h | h
            · exact hn h
            · exact hcomma (List.mem_singleton.mp h)
          · exact ih h

-- What follows the dimensions of the iota.
def transpose_text (transpose_perm : List Nat) (last_tile_dim_replicate : Bool) : List Char :=
  (if transpose_perm ≠ List.range transpose_perm.length then
    "T(".toList ++ ((interleave transpose_perm).toList ++ ')' :: []) else []) ++
  if last_tile_dim_replicate then " last_tile_dim_replicate\x7d".toList else "\x7d".toList

theorem sharding_text_toList (tile_dims reshape_dims transpose_perm : List Nat) (last : Bool) :
    (sharding_text tile_dims reshape_dims transpose_perm last).toList =
      "\x7bdevices=[".toList ++ ((interleave tile_dims).toList ++ ']' ::
        ("<=[".toList ++ ((interleave reshape_dims).toList ++ ']' ::
          transpose_text transpose_perm last))) := by
  unfold sharding_text transpose_text
  simp only [String.toList_append, List.append_assoc]
  cases last with
  | false =>
      by_cases hperm : transpose_perm = List.range transpose_perm.length
      · rw [if_neg (not_not.mpr hperm), if_neg (not_not.mpr hperm)]
        rfl
      · rw [if_pos hperm, if_pos hperm, String.toList_append, String.toList_append]
        simp
  | true =>
      by_cases hperm : transpose_perm = List.range transpose_perm.length
      · rw [if_neg (not_not.mpr hperm), if_neg (not_not.mpr hperm)]
        rfl
      · rw [if_pos hperm, if_pos hperm, String.toList_append, String.toList_append]
        simp

theorem last_tile_dim_text (last : Bool) :
    last_tile_dim (if last then " last_tile_dim_replicate\x7d".toList else "\x7d".toList) =
      some last := by
  cases last with
  | false => rfl
  | true => rfl

theorem sharding_text_ne (tile_dims reshape_dims transpose_perm : List Nat) (last : Bool) :
    sharding_text tile_dims reshape_dims transpose_perm last ≠ "\x7breplicated\x7d" := by
  intro h
  have hlist := congrArg String.toList h
  rw [sharding_text_toList] at hlist
  cases hlist

-- One dimension is its own order, and more dimensions are in another one.
theorem transpose_transpose_text {iota_dims perm : List Nat}
    (hperm : perm.Perm (List.range iota_dims.length)) (hne : iota_dims ≠ [])
    (hmoved : 2 ≤ iota_dims.length → perm ≠ List.range perm.length) (last : Bool) :
    transpose iota_dims (transpose_text perm last) = some (perm,
      if last then " last_tile_dim_replicate\x7d".toList else "\x7d".toList) := by
  have hlen : perm.length = iota_dims.length := by rw [hperm.length_eq, List.length_range]
  unfold transpose transpose_text
  by_cases hone : iota_dims.length = 1
  · have hid : perm = [0] := by
      rw [hone] at hperm
      exact List.perm_singleton.mp hperm
    have hrange : [0] = List.range [0].length := rfl
    rw [if_pos hone, hid, if_neg (not_not.mpr hrange), List.nil_append]
  · have htwo : 2 ≤ iota_dims.length := by
      have hpos := List.length_pos_of_ne_nil hne
      omega
    have hperm_ne : perm ≠ [] := by
      intro h
      rw [h] at hlen
      exact hne (List.length_eq_zero_iff.mp hlen.symm)
    rw [if_neg hone, if_pos (hmoved htwo), List.append_assoc, expect_append]
    simp only [Option.bind_eq_bind, Option.bind_some, List.append_assoc, List.cons_append,
      List.nil_append]
    rw [up_to_append (not_mem_interleave rfl (by decide) perm)]
    simp only [Option.bind_some]
    rw [numbers_interleave hperm_ne]
    rfl

-- The text of a sharding over an iota of several dimensions, none of which follow each other.
theorem parse_sharding_text {tile_dims iota_dims perm : List Nat} (htile : tile_dims ≠ [])
    (hiota : iota_dims ≠ []) (hpos : ∀ d ∈ tile_dims, 0 < d) (h : Iota iota_dims perm)
    (hprod : tile_dims.prod = iota_dims.prod)
    (hmoved : 2 ≤ iota_dims.length → perm ≠ List.range perm.length) (last : Bool) :
    parse (sharding_text tile_dims iota_dims perm last) =
      some (.tiled tile_dims iota_dims perm last) := by
  have hbracket : ∀ l : List Nat, ']' ∉ (interleave l).toList :=
    not_mem_interleave rfl (by decide)
  unfold parse
  rw [if_neg (sharding_text_ne tile_dims iota_dims perm last), sharding_text_toList,
    expect_append]
  simp only [Option.bind_eq_bind, Option.bind_some]
  rw [up_to_append (hbracket tile_dims)]
  simp only [Option.bind_some]
  rw [numbers_interleave htile]
  simp only [Option.bind_some]
  rw [expect_append]
  simp only [Option.bind_some]
  rw [up_to_append (hbracket iota_dims)]
  simp only [Option.bind_some]
  rw [numbers_interleave hiota]
  simp only [Option.bind_some]
  rw [transpose_transpose_text h.perm hiota hmoved last]
  simp only [Option.bind_some]
  rw [last_tile_dim_text]
  simp only [Option.bind_some]
  rw [if_pos ⟨hpos, h.pos, hprod, h.perm⟩]

-- An iota without dimensions has no text.
theorem parse_no_dims (tile_dims perm : List Nat) (last : Bool) :
    parse (sharding_text tile_dims [] perm last) = none := by
  have hbracket : ∀ l : List Nat, ']' ∉ (interleave l).toList :=
    not_mem_interleave rfl (by decide)
  unfold parse
  rw [if_neg (sharding_text_ne tile_dims [] perm last), sharding_text_toList, expect_append]
  simp only [Option.bind_eq_bind, Option.bind_some]
  rw [up_to_append (hbracket tile_dims)]
  simp only [Option.bind_some]
  cases htile : numbers (interleave tile_dims).toList with
  | none => rfl
  | some dims =>
      simp only [Option.bind_some]
      rw [expect_append]
      simp only [Option.bind_some]
      rw [up_to_append (hbracket [])]
      rfl

end TTXla.PJRT.CleanForXla
