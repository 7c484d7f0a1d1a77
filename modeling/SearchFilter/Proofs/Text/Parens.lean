import Mathlib.Tactic.Common
import SearchFilter.Filter.Limit

namespace SearchFilter.Paren

/-- Wherever the text stands, its parentheses nest `n` deep, and behind it the nesting is what it
was before it. Such texts can be put one behind the other and enclosed in further parentheses
without looking into them. -/
def Nests (text : List Char) (n : Nat) : Prop :=
  ∀ depth deepest rest, depth ≤ deepest →
    deepestFrom depth deepest (text ++ rest) = deepestFrom depth (max deepest (depth + n)) rest

namespace Nests

/-- A text without parentheses nests nothing. -/
theorem of_notMem {text : List Char} (hopen : '(' ∉ text) (hclose : ')' ∉ text) : Nests text 0 := by
  intro depth deepest rest hle
  rw [Nat.add_zero, Nat.max_eq_left hle]
  induction text with
  | nil => rfl
  | cons c text ih =>
    simp only [List.mem_cons, not_or] at hopen hclose
    rw [List.cons_append, deepestFrom, if_neg (Ne.symm hopen.1), if_neg (Ne.symm hclose.1)]
    exact ih hopen.2 hclose.2

/-- Texts that close what they open nest as deep together as the deeper of them. -/
theorem append {x y : List Char} {m n : Nat} (hx : Nests x m) (hy : Nests y n) :
    Nests (x ++ y) (max m n) := by
  intro depth deepest rest hle
  rw [List.append_assoc, hx _ _ _ hle, hy _ _ _ (by omega)]
  congr 1
  omega

/-- A parenthesis around a text adds one level to what it nests. -/
theorem enclose {x : List Char} {n : Nat} (hx : Nests x n) : Nests ('(' :: (x ++ [')'])) (n + 1) := by
  intro depth deepest rest _
  have hclose (m : Nat) : deepestFrom (depth + 1) m (')' :: rest) = deepestFrom depth m rest := rfl
  rw [List.cons_append, List.append_assoc, deepestFrom, if_pos rfl, hx _ _ _ (by omega),
    List.singleton_append, hclose]
  congr 1
  omega

/-- A text that closes what it opens is found to nest as deep as it does. -/
theorem deepestFrom_eq {x : List Char} {n : Nat} (hx : Nests x n) : deepestFrom 0 0 x = n := by
  have hwhole := hx 0 0 [] (Nat.le_refl 0)
  rw [List.append_nil] at hwhole
  rw [hwhole, deepestFrom]
  omega

end Nests

/-- Wherever the text stands, `n` of the parentheses that it opens are open behind it. -/
def Opens (text : List Char) (n : Nat) : Prop :=
  ∀ depth deepest rest, depth ≤ deepest → ∃ higher, depth + n ≤ higher ∧
    deepestFrom depth deepest (text ++ rest) = deepestFrom (depth + n) higher rest

theorem le_deepestFrom (depth deepest : Nat) (cs : List Char) :
    deepest ≤ deepestFrom depth deepest cs := by
  induction cs generalizing depth deepest with
  | nil => exact Nat.le_refl deepest
  | cons c cs ih =>
    rw [deepestFrom]
    split_ifs
    · exact Nat.le_trans (Nat.le_max_left _ _) (ih _ _)
    · exact ih _ _
    · exact ih _ _

/-- Each character opens at most one more level. -/
theorem deepestFrom_le (depth deepest : Nat) (cs : List Char) :
    deepestFrom depth deepest cs ≤ max deepest (depth + cs.length) := by
  induction cs generalizing depth deepest with
  | nil => exact Nat.le_max_left _ _
  | cons c cs ih =>
    rw [deepestFrom, List.length_cons]
    split_ifs
    · have hrest := ih (depth + 1) (max deepest (depth + 1))
      omega
    · have hrest := ih (depth - 1) deepest
      omega
    · have hrest := ih depth deepest
      omega

/-- A parenthesis around a text counts for one level at most, and for none where the text closes it. -/
theorem deepestFrom_le_succ {depth depth' deepest deepest' : Nat} (hdepth : depth' ≤ depth + 1)
    (hdeepest : deepest' ≤ deepest + 1) (cs : List Char) :
    deepestFrom depth' deepest' cs ≤ deepestFrom depth deepest cs + 1 := by
  induction cs generalizing depth depth' deepest deepest' with
  | nil => exact hdeepest
  | cons c cs ih =>
    rw [deepestFrom, deepestFrom]
    split_ifs
    · exact ih (by omega) (by omega)
    · exact ih (by omega) hdeepest
    · exact ih hdepth hdeepest

theorem deepestFrom_append_close (depth deepest : Nat) (cs : List Char) :
    deepestFrom depth deepest (cs ++ [')']) = deepestFrom depth deepest cs := by
  induction cs generalizing depth deepest with
  | nil => rfl
  | cons c cs ih =>
    rw [List.cons_append, deepestFrom, deepestFrom, ih, ih, ih]

namespace Opens

theorem nil : Opens [] 0 :=
  fun _ deepest _ hle => ⟨deepest, hle, rfl⟩

theorem paren : Opens ['('] 1 :=
  fun _ _ _ _ => ⟨_, Nat.le_max_right _ _, rfl⟩

/-- What two texts leave open adds up. -/
theorem append {x y : List Char} {m n : Nat} (hx : Opens x m) (hy : Opens y n) :
    Opens (x ++ y) (m + n) := by
  intro depth deepest rest hle
  obtain ⟨higher, hhigher, hopens⟩ := hx depth deepest (y ++ rest) hle
  obtain ⟨highest, hhighest, hopens'⟩ := hy (depth + m) higher rest hhigher
  refine ⟨highest, by omega, ?_⟩
  rw [List.append_assoc, hopens, hopens', Nat.add_assoc]

/-- A text that closes what it opens leaves nothing open. -/
theorem of_nests {x : List Char} {n : Nat} (hx : Nests x n) : Opens x 0 :=
  fun depth deepest rest hle =>
    ⟨max deepest (depth + n), Nat.le_trans hle (Nat.le_max_left _ _), hx depth deepest rest hle⟩

/-- A parenthesis behind a text that leaves some open nests deeper than they do, whatever follows
it. -/
theorem lt_deepestFrom {x : List Char} {n : Nat} (hx : Opens x n) (rest : List Char) :
    n < deepestFrom 0 0 (x ++ '(' :: rest) := by
  obtain ⟨higher, _, hopens⟩ := hx 0 0 ('(' :: rest) (Nat.le_refl 0)
  rw [hopens, Nat.zero_add, deepestFrom, if_pos rfl]
  have hdeepest := le_deepestFrom (n + 1) (max higher (n + 1)) rest
  omega

end Opens

/-- A text opens no more levels than it has characters, but for the pair of parentheses that may be
put around it. -/
theorem depth_le_length (text : String) : depth text ≤ text.toList.length + 1 := by
  have hle := deepestFrom_le 0 0 text.toList
  unfold depth
  dsimp only
  split_ifs <;> omega

end SearchFilter.Paren
