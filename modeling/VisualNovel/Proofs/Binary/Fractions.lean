import Mathlib.Tactic.LinearCombination
import Mathlib.Tactic.Ring

/-!
# Fractions with small denominators

Two fractions `a / b < c / d` are *neighbours* if `c * b = a * d + 1`. Whatever lies between
neighbours has a denominator of at least `b + d` (`Amid.le_denominator`), and their mediant
`(a + c) / (b + d)` is the neighbour of both. Going from neighbours to mediants therefore finds all
fractions of an interval whose denominators are bounded (`fractionsBetween`,
`mem_fractionsBetween`).
-/

namespace VisualNovel

/-- The fractions between `lower / scale` and `upper / scale` with denominators up to a bound that
lie between the given neighbours; `none` if the steps do not suffice. A neighbour that is outside
the interval is moved as far as it stays outside, by several mediants at once. -/
def fractionsBetween (lower upper scale bound : Nat) :
    Nat → Nat × Nat → Nat × Nat → Option (List (Nat × Nat))
  | 0, _, _ => none
  | steps + 1, (a, b), (c, d) =>
    if bound < b + d then some []
    else
      let up := (lower * b - a * scale) / (c * scale - lower * d)
      let down := (c * scale - upper * d) / (upper * b - a * scale)
      if 0 < up then
        fractionsBetween lower upper scale bound steps (a + up * c, b + up * d) (c, d)
      else if 0 < down then
        fractionsBetween lower upper scale bound steps (a, b) (c + down * a, d + down * b)
      else do
        let below ← fractionsBetween lower upper scale bound steps (a, b) (a + c, b + d)
        let above ← fractionsBetween lower upper scale bound steps (a + c, b + d) (c, d)
        return below ++ (a + c, b + d) :: above

/-- A fraction that lies between neighbours. -/
structure Amid (a b c d n m : Nat) : Prop where
  neighbours : c * b = a * d + 1
  left : a * m < n * b
  right : n * d < c * m

section Neighbours

variable {a b c d n m : Nat}

/-- A fraction between neighbours, by how far it is from each of them. -/
theorem Amid.exists_eq (h : Amid a b c d n m) : ∃ near far, 0 < near ∧ 0 < far ∧
    n * b = a * m + near ∧ c * m = n * d + far ∧ m = b * far + d * near ∧
      n = a * far + c * near := by
  obtain ⟨near, hnear⟩ := Nat.exists_eq_add_of_lt h.left
  obtain ⟨far, hfar⟩ := Nat.exists_eq_add_of_lt h.right
  refine ⟨near + 1, far + 1, Nat.succ_pos _, Nat.succ_pos _, hnear, hfar, ?_, ?_⟩
  · have hm : (m : ℤ) = b * (far + 1) + d * (near + 1) := by
      have hneighbours : (c : ℤ) * b = a * d + 1 := by exact_mod_cast h.neighbours
      have hnear : (n : ℤ) * b = a * m + near + 1 := by exact_mod_cast hnear
      have hfar : (c : ℤ) * m = n * d + far + 1 := by exact_mod_cast hfar
      linear_combination (-(m : ℤ)) * hneighbours + (d : ℤ) * hnear + (b : ℤ) * hfar
    exact_mod_cast hm
  · have hn : (n : ℤ) = a * (far + 1) + c * (near + 1) := by
      have hneighbours : (c : ℤ) * b = a * d + 1 := by exact_mod_cast h.neighbours
      have hnear : (n : ℤ) * b = a * m + near + 1 := by exact_mod_cast hnear
      have hfar : (c : ℤ) * m = n * d + far + 1 := by exact_mod_cast hfar
      linear_combination (-(n : ℤ)) * hneighbours + (c : ℤ) * hnear + (a : ℤ) * hfar
    exact_mod_cast hn

/-- Between neighbours, denominators are large. -/
theorem Amid.le_denominator (h : Amid a b c d n m) : b + d ≤ m := by
  obtain ⟨near, far, hnear, hfar, -, -, hm, -⟩ := h.exists_eq
  rw [hm]
  exact Nat.add_le_add (Nat.le_mul_of_pos_right b hfar) (Nat.le_mul_of_pos_right d hnear)

/-- A neighbour may be moved by mediants, as long as the fraction stays between. -/
theorem Amid.left_mediant (h : Amid a b c d n m) {k : Nat}
    (hleft : (a + k * c) * m < n * (b + k * d)) : Amid (a + k * c) (b + k * d) c d n m where
  neighbours := by
    have hneighbours := h.neighbours
    calc c * (b + k * d)
      _ = c * b + k * c * d := by ring
      _ = (a + k * c) * d + 1 := by rw [hneighbours]; ring
  left := hleft
  right := h.right

theorem Amid.right_mediant (h : Amid a b c d n m) {k : Nat}
    (hright : n * (d + k * b) < (c + k * a) * m) : Amid a b (c + k * a) (d + k * b) n m where
  neighbours := by
    have hneighbours := h.neighbours
    calc (c + k * a) * b
      _ = c * b + k * a * b := by ring
      _ = a * (d + k * b) + 1 := by rw [hneighbours]; ring
  left := h.left
  right := hright

/-- What is neither below nor above the mediant is the mediant, up to a factor. -/
theorem Amid.eq_mediant (h : Amid a b c d n m) (hle : n * (b + d) ≤ (a + c) * m)
    (hge : (a + c) * m ≤ n * (b + d)) : ∃ t, n = t * (a + c) ∧ m = t * (b + d) := by
  obtain ⟨near, far, -, -, hnear, hfar, hm, hn⟩ := h.exists_eq
  obtain rfl : near = far := by
    rw [Nat.mul_add, Nat.add_mul] at hle hge
    omega
  refine ⟨near, ?_, ?_⟩
  · rw [hn]
    ring
  · rw [hm]
    ring

end Neighbours

/-- A step that is repeated as often as a difference allows does not exceed it. -/
theorem add_mul_le_of_div {u v w x : Nat} (h : 0 < (u - v) / (w - x)) :
    v + (u - v) / (w - x) * w ≤ u + (u - v) / (w - x) * x := by
  obtain ⟨hpos, hdifference⟩ := Nat.div_pos_iff.mp h
  have hmul := Nat.div_mul_le_self (u - v) (w - x)
  rw [Nat.mul_sub] at hmul
  omega

/-- What is inside an interval is to the right of what is outside at its left. -/
theorem lt_of_outside_left {lower scale a b n m : Nat} (hinside : lower * m < n * scale)
    (houtside : a * scale ≤ lower * b) (hb : 0 < b) : a * m < n * b := by
  have hscale : 0 < scale := Nat.pos_of_mul_pos_left (Nat.zero_lt_of_lt hinside)
  apply Nat.lt_of_mul_lt_mul_right (a := scale)
  calc a * m * scale
    _ = a * scale * m := Nat.mul_right_comm a m scale
    _ ≤ lower * b * m := Nat.mul_le_mul_right m houtside
    _ = b * (lower * m) := by ring
    _ < b * (n * scale) := Nat.mul_lt_mul_of_pos_left hinside hb
    _ = n * b * scale := by ring

/-- What is inside an interval is to the left of what is outside at its right. -/
theorem lt_of_outside_right {upper scale c d n m : Nat} (hinside : n * scale < upper * m)
    (houtside : upper * d ≤ c * scale) (hd : 0 < d) : n * d < c * m := by
  apply Nat.lt_of_mul_lt_mul_right (a := scale)
  calc n * d * scale
    _ = d * (n * scale) := by ring
    _ < d * (upper * m) := Nat.mul_lt_mul_of_pos_left hinside hd
    _ = upper * d * m := by ring
    _ ≤ c * scale * m := Nat.mul_le_mul_right m houtside
    _ = c * m * scale := Nat.mul_right_comm c scale m

section Moves

variable {lower upper scale a b c d n m : Nat} (h : Amid a b c d n m)
include h

theorem Amid.left_denominator_pos : 0 < b := by
  by_contra hzero
  have hneighbours := h.neighbours
  rw [Nat.eq_zero_of_not_pos hzero, Nat.mul_zero] at hneighbours
  omega

/-- The left neighbour is moved as far as it stays outside the interval. -/
theorem Amid.move_left (hlower : lower * m < n * scale)
    (hup : 0 < (lower * b - a * scale) / (c * scale - lower * d)) :
    Amid (a + (lower * b - a * scale) / (c * scale - lower * d) * c)
      (b + (lower * b - a * scale) / (c * scale - lower * d) * d) c d n m := by
  have hstep := add_mul_le_of_div hup
  generalize (lower * b - a * scale) / (c * scale - lower * d) = k at hstep
  have hpos : 0 < b + k * d := Nat.add_pos_left h.left_denominator_pos _
  refine h.left_mediant (lt_of_outside_left hlower ?_ hpos)
  calc (a + k * c) * scale
    _ = a * scale + k * (c * scale) := by ring
    _ ≤ lower * b + k * (lower * d) := hstep
    _ = lower * (b + k * d) := by ring

/-- The right neighbour is moved as far as it stays outside the interval. -/
theorem Amid.move_right (hupper : n * scale < upper * m)
    (hdown : 0 < (c * scale - upper * d) / (upper * b - a * scale)) :
    Amid a b (c + (c * scale - upper * d) / (upper * b - a * scale) * a)
      (d + (c * scale - upper * d) / (upper * b - a * scale) * b) n m := by
  have hstep := add_mul_le_of_div hdown
  generalize (c * scale - upper * d) / (upper * b - a * scale) = k at hstep hdown
  have hpos : 0 < d + k * b := Nat.add_pos_right d (Nat.mul_pos hdown h.left_denominator_pos)
  refine h.right_mediant (lt_of_outside_right hupper ?_ hpos)
  calc upper * (d + k * b)
    _ = upper * d + k * (upper * b) := by ring
    _ ≤ c * scale + k * (a * scale) := hstep
    _ = (c + k * a) * scale := by ring

/-- What is below the mediant is between the left neighbour and the mediant. -/
theorem Amid.below_mediant (hlt : n * (b + d) < (a + c) * m) : Amid a b (a + c) (b + d) n m where
  neighbours := by rw [Nat.add_mul, h.neighbours, Nat.mul_add, Nat.add_assoc]
  left := h.left
  right := hlt

/-- What is above the mediant is between the mediant and the right neighbour. -/
theorem Amid.above_mediant (hgt : (a + c) * m < n * (b + d)) : Amid (a + c) (b + d) c d n m where
  neighbours := by rw [Nat.mul_add, h.neighbours, Nat.add_mul, Nat.add_right_comm]
  left := hgt
  right := h.right

end Moves

/-- All fractions of the interval between neighbours with bounded denominators are found, up to a
factor. -/
theorem mem_fractionsBetween {lower upper scale bound steps : Nat} {a b c d n m : Nat}
    {found : List (Nat × Nat)}
    (hfound : fractionsBetween lower upper scale bound steps (a, b) (c, d) = some found)
    (h : Amid a b c d n m) (hlower : lower * m < n * scale) (hupper : n * scale < upper * m)
    (hbound : m ≤ bound) : ∃ fraction ∈ found, ∃ t, n = t * fraction.1 ∧ m = t * fraction.2 := by
  induction steps generalizing a b c d found with
  | zero => exact absurd hfound nofun
  | succ steps ih =>
    rw [fractionsBetween] at hfound
    split at hfound
    · next hlarge => exact absurd (Nat.le_trans h.le_denominator hbound) (Nat.not_le.mpr hlarge)
    · dsimp only at hfound
      split at hfound
      · next hup => exact ih hfound (h.move_left hlower hup)
      · split at hfound
        · next hdown => exact ih hfound (h.move_right hupper hdown)
        · obtain ⟨below, hbelow, hrest⟩ := Option.bind_eq_some_iff.mp hfound
          obtain ⟨above, habove, hmem⟩ := Option.bind_eq_some_iff.mp hrest
          obtain rfl := Option.some.inj hmem
          obtain hlt | heq | hgt := Nat.lt_trichotomy (n * (b + d)) ((a + c) * m)
          · obtain ⟨fraction, hfraction, hfactor⟩ := ih hbelow (h.below_mediant hlt)
            exact ⟨fraction, List.mem_append_left _ hfraction, hfactor⟩
          · obtain ⟨t, hn, hm⟩ := h.eq_mediant (Nat.le_of_eq heq) (Nat.le_of_eq heq.symm)
            exact ⟨_, List.mem_append_right _ List.mem_cons_self, t, hn, hm⟩
          · obtain ⟨fraction, hfraction, hfactor⟩ := ih habove (h.above_mediant hgt)
            exact ⟨fraction, List.mem_append_right _ (List.mem_cons_of_mem _ hfraction), hfactor⟩

end VisualNovel
