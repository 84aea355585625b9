import Mathlib.Data.List.Basic

-- Readers of texts, and the texts that they read back.
namespace TTXla.Text

-- A reader takes an item from the front of a text.
abbrev Reader (α : Type) := List Char → Option (α × List Char)

variable {α : Type}

def literal (text : List Char) : Reader Unit := fun cs => (text.isPrefixOf? cs).map ((), ·)

def quoted : Reader String := fun cs => do
  let (_, cs) ← literal ['\x22'] cs
  let (_, rest) ← literal ['\x22'] (cs.dropWhile (· ≠ '\x22'))
  return (String.ofList (cs.takeWhile (· ≠ '\x22')), rest)

-- The items that follow the first, up to the closing text.
def more (r : Reader α) (sep close : List Char) : Nat → Reader (List α)
  | 0, _ => none
  | fuel + 1, cs =>
      if (literal sep cs).isSome then do
        let (_, cs) ← literal sep cs
        let (a, cs) ← r cs
        let (as, cs) ← more r sep close fuel cs
        return (a :: as, cs)
      else do
        let (_, cs) ← literal close cs
        return ([], cs)

def enclosed (r : Reader α) (start sep close : List Char) : Reader (List α) := fun cs => do
  let (_, cs) ← literal start cs
  if (literal close cs).isSome then do
    let (_, cs) ← literal close cs
    return ([], cs)
  else do
    let (a, cs) ← r cs
    let (as, cs) ← more r sep close (cs.length + 1) cs
    return (a :: as, cs)

def write_quoted (s : String) : List Char := '\x22' :: s.toList ++ ['\x22']

def write_enclosed (w : α → List Char) (start sep close : List Char) (as : List α) : List Char :=
  start ++ sep.intercalate (as.map w) ++ close

-- A reader reads a text back when it takes just this text from the front of another.
def Reads (r : Reader α) (w : α → List Char) (P : α → Prop) : Prop :=
  ∀ a, P a → ∀ rest, r (w a ++ rest) = some (a, rest)

theorem literal_append (text rest : List Char) : literal text (text ++ rest) = some ((), rest) := by
  rw [literal, List.isPrefixOf?_eq_some_iff_append_eq.mpr rfl]
  rfl

theorem literal_cons_ne {c d : Char} (h : c ≠ d) (cs ds : List Char) :
    literal (c :: cs) (d :: ds) = none := by
  rw [literal, List.isPrefixOf?, if_neg (by simpa using h)]
  rfl

theorem quoted_reads : Reads quoted write_quoted fun s => '\x22' ∉ s.toList := by
  intro s hs rest
  have hall : ∀ c ∈ s.toList, decide (c ≠ '\x22') = true := fun c hc =>
    decide_eq_true fun h => hs (h ▸ hc)
  have htake : (s.toList ++ '\x22' :: rest).takeWhile (· ≠ '\x22') = s.toList := by
    rw [List.takeWhile_append_of_pos hall, List.takeWhile_cons_of_neg (by simp), List.append_nil]
  have hdrop : (s.toList ++ '\x22' :: rest).dropWhile (· ≠ '\x22') = '\x22' :: rest := by
    rw [List.dropWhile_append_of_pos hall, List.dropWhile_cons_of_neg (by simp)]
  have htext : write_quoted s ++ rest = ['\x22'] ++ (s.toList ++ '\x22' :: rest) := by
    simp [write_quoted]
  unfold quoted
  rw [htext, literal_append]
  change (literal _ _ >>= _) = _
  rw [hdrop]
  have hquote : literal ['\x22'] ('\x22' :: rest) = some ((), rest) := literal_append ['\x22'] rest
  rw [hquote]
  change some (String.ofList _, rest) = _
  rw [htake, String.ofList_toList]

variable {r : Reader α} {w : α → List Char} {P : α → Prop} {start sep close : List Char}

theorem more_reads (hr : Reads r w P) (hclose : ∀ rest, literal sep (close ++ rest) = none)
    {as : List α} (has : ∀ a ∈ as, P a) (rest : List Char) {fuel : Nat} (hfuel : as.length < fuel) :
    more r sep close fuel ((as.map fun a => sep ++ w a).flatten ++ (close ++ rest)) =
      some (as, rest) := by
  induction as generalizing fuel with
  | nil =>
      obtain ⟨fuel, rfl⟩ := Nat.exists_eq_add_one.mpr (Nat.zero_lt_of_lt hfuel)
      rw [List.map_nil, List.flatten_nil, List.nil_append, more, hclose, literal_append]
      rfl
  | cons a as ih =>
      obtain ⟨fuel, rfl⟩ := Nat.exists_eq_add_one.mpr (Nat.zero_lt_of_lt hfuel)
      have htail := ih (fun b hb => has b (List.mem_cons_of_mem _ hb))
        (Nat.lt_of_succ_lt_succ hfuel)
      rw [List.map_cons, List.flatten_cons, List.append_assoc, List.append_assoc, more,
        literal_append]
      change (r _ >>= _) = _
      rw [hr a (has a List.mem_cons_self)]
      change (more _ _ _ _ _ >>= _) = _
      rw [htail]
      rfl

theorem intercalate_map (sep : List Char) (w : α → List Char) (a : α) (as : List α) :
    sep.intercalate ((a :: as).map w) = w a ++ (as.map fun a => sep ++ w a).flatten := by
  induction as generalizing a with
  | nil => simp
  | cons b as ih =>
      rw [List.map_cons, List.map_cons, List.intercalate_cons_cons, ← List.map_cons, ih,
        List.map_cons, List.flatten_cons]
      simp

theorem length_le_flatten (hsep : 0 < sep.length) (w : α → List Char) (as : List α) :
    as.length ≤ (as.map fun a => sep ++ w a).flatten.length := by
  induction as with
  | nil => exact Nat.le_refl 0
  | cons a as ih =>
      rw [List.map_cons, List.flatten_cons, List.length_cons, List.length_append,
        List.length_append]
      omega

-- A separator and an item are not taken for the closing text.
theorem enclosed_reads (hr : Reads r w P) (hlength : 0 < sep.length)
    (hsep : ∀ rest, literal sep (close ++ rest) = none)
    (hclose : ∀ a, P a → ∀ rest, literal close (w a ++ rest) = none) :
    Reads (enclosed r start sep close) (write_enclosed w start sep close) fun as =>
      ∀ a ∈ as, P a := by
  intro as has rest
  unfold write_enclosed enclosed
  rw [List.append_assoc, List.append_assoc, literal_append]
  cases as with
  | nil =>
      change (if (literal close (close ++ rest)).isSome then literal close (close ++ rest) >>= _
        else _) = _
      rw [literal_append]
      rfl
  | cons a as =>
      have hhead := has a List.mem_cons_self
      have htail : ∀ b ∈ as, P b := fun b hb => has b (List.mem_cons_of_mem _ hb)
      have hfuel := length_le_flatten hlength w as
      rw [intercalate_map, List.append_assoc]
      change (if (literal close (w a ++ _)).isSome then _ else r (w a ++ _) >>= _) = _
      rw [hclose a hhead, if_neg (by simp), hr a hhead]
      change (more _ _ _ _ _ >>= _) = _
      rw [more_reads hr hsep htail rest (by rw [List.length_append]; omega)]
      rfl

end TTXla.Text
