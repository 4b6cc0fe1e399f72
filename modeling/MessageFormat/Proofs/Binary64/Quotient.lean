import MessageFormat.Proofs.Binary64.Whole

/-!
# Quotients and remainders

A rounded quotient does not pass a number of at most 53 bits (`le_roundUnits`, `roundUnits_le_of_le`),
and it does not even reach one whose product with the divisor has no more bits
(`roundUnits_lt_of_lt`). So the integer part of a quotient is exact unless it is large. Remainders
are exact (`significant_mod`).
-/

namespace MessageFormat

open Decimal (roundHalfEven)

/-! ## Rounded quotients -/

section Quotient

variable {num den m : Nat}

theorem lt_two_pow_log2 {m n : Nat} (h : m.log2 < n.log2) : m < 2 ^ n.log2 ∧ 2 ^ n.log2 ≤ n := by
  constructor
  · exact Nat.lt_log2_self.trans_le (Nat.pow_le_pow_right (by omega) h)
  · apply Nat.log2_self_le
    rintro rfl
    simp at h

theorem log2_le_log2 {m n : Nat} (h : m ≤ n) : m.log2 ≤ n.log2 := by
  by_contra more
  obtain ⟨less, least⟩ := lt_two_pow_log2 (Nat.lt_of_not_le more)
  omega

theorem roundUnits_eq (num den : Nat) :
    roundUnits num den = roundHalfEven num (den * 2 ^ ((num / den).log2 - 52)) *
      2 ^ ((num / den).log2 - 52) := by
  simp [roundUnits, roundUnitsTo]

theorem roundUnits_scale (num den : Nat) {c : Nat} (pos : 0 < c) :
    roundUnits (num * c) (den * c) = roundUnits num den := by
  rw [roundUnits_eq, roundUnits_eq, Nat.mul_div_mul_right _ _ pos, Nat.mul_right_comm,
    Decimal.roundHalfEven_scale _ _ pos]

theorem le_roundUnits (significant : Significant m) (pos : 0 < den) (h : m * den ≤ num) :
    m ≤ roundUnits num den := by
  have quotient : m ≤ num / den := (Nat.le_div_iff_mul_le pos).2 h
  rw [roundUnits_eq]
  generalize step : (num / den).log2 - 52 = k
  -- A multiple of the step is not less than the number and not more than the quotient.
  obtain ⟨q, least, limit⟩ : ∃ q, m ≤ q * 2 ^ k ∧ q * 2 ^ k ≤ num / den := by
    rcases Nat.lt_or_ge m.log2 (num / den).log2 with lower | higher
    · obtain ⟨less, least⟩ := lt_two_pow_log2 lower
      have power : 2 ^ ((num / den).log2 - k) * 2 ^ k = 2 ^ (num / den).log2 := by
        rw [← Nat.pow_add, Nat.sub_add_cancel (by omega)]
      exact ⟨_, power ▸ less.le, power ▸ least⟩
    · obtain ⟨q, rfl⟩ := two_pow_dvd_of_significant significant (e := k) (by omega)
      rw [Nat.mul_comm] at quotient
      exact ⟨q, (Nat.mul_comm _ q).le, quotient⟩
  have below : q ≤ num / (den * 2 ^ k) := by
    rwa [← Nat.div_div_eq_div_mul, Nat.le_div_iff_mul_le (Nat.two_pow_pos k)]
  exact least.trans (Nat.mul_le_mul_right _ (below.trans (Decimal.le_roundHalfEven _ _)))

theorem roundUnits_le_of_le (significant : Significant m) (pos : 0 < den) (h : num ≤ m * den) :
    roundUnits num den ≤ m := by
  have quotient : num / den ≤ m := Nat.div_le_of_le_mul (by rwa [Nat.mul_comm])
  rw [roundUnits_eq]
  generalize step : (num / den).log2 - 52 = k
  have multiple : 2 ^ k ∣ m := by
    apply two_pow_dvd_of_significant significant
    have log := log2_le_log2 quotient
    omega
  obtain ⟨q, rfl⟩ := multiple
  rw [Nat.mul_comm (2 ^ k) q]
  apply Nat.mul_le_mul_right
  apply Decimal.roundHalfEven_le_of_le (Nat.mul_pos pos (Nat.two_pow_pos k))
  calc num ≤ 2 ^ k * q * den := h
    _ = q * (den * 2 ^ k) := by ring

theorem log2_add_log2_le (some : num / den ≠ 0) : den.log2 + (num / den).log2 ≤ num.log2 := by
  have den_ne : den ≠ 0 := by
    rintro rfl
    simp at some
  have num_ne : num ≠ 0 := by
    rintro rfl
    simp at some
  rw [Nat.le_log2 num_ne, Nat.pow_add]
  calc 2 ^ den.log2 * 2 ^ (num / den).log2
      ≤ den * (num / den) := Nat.mul_le_mul (Nat.log2_self_le den_ne) (Nat.log2_self_le some)
    _ ≤ num := Nat.mul_div_le num den

/-- A number of at most 53 bits that is less than a product of no more bits keeps so far from it
that their rounded quotients differ. -/
theorem roundUnits_lt_of_lt (significant : Significant num) (product : Significant (m * den))
    (large : 2 ^ 53 ≤ m) (h : num < m * den) : roundUnits num den < m := by
  have pos : 0 < den := Nat.pos_of_mul_pos_left (Nat.zero_lt_of_lt h)
  by_contra reached
  -- Rounding up to the number takes half a step of the quotient at most.
  have half : 2 * (m * den) ≤ 2 * num + den * 2 ^ ((num / den).log2 - 52) := by
    rw [roundUnits_eq, Nat.not_lt] at reached
    have rounded := Decimal.roundHalfEven_mul_le num (den * 2 ^ ((num / den).log2 - 52))
    generalize 2 ^ ((num / den).log2 - 52) = step at *
    calc 2 * (m * den) ≤ 2 * (roundHalfEven num (den * step) * step * den) := by gcongr
      _ = 2 * (roundHalfEven num (den * step) * (den * step)) := by ring
      _ ≤ 2 * num + den * step := rounded
  rcases Nat.lt_or_ge (num / den).log2 52 with low | high
  · -- The steps are ones here, and the quotient is far below.
    have less : num < 2 ^ 52 * den := by
      rw [← Nat.div_lt_iff_lt_mul pos]
      exact Nat.lt_log2_self.trans_le (Nat.pow_le_pow_right (by omega) low)
    have far : 2 ^ 53 * den ≤ m * den := Nat.mul_le_mul_right den large
    rw [Nat.sub_eq_zero_of_le low.le, Nat.pow_zero] at half
    omega
  · -- Both are multiples of the gap at the number, so they are at least that far apart.
    have some : num / den ≠ 0 := by
      intro none
      simp [none] at high
    have logs := log2_add_log2_le some
    have gap : 2 ^ (num.log2 - 52) ∣ m * den - num := by
      apply Nat.dvd_sub
      · exact two_pow_dvd_of_significant product (Nat.sub_le_sub_right (log2_le_log2 h.le) 52)
      · exact two_pow_dvd_of_significant significant le_rfl
    have apart : 2 ^ (num.log2 - 52) ≤ m * den - num := Nat.le_of_dvd (by omega) gap
    have wide : den * 2 ^ ((num / den).log2 - 52) < 2 * 2 ^ (num.log2 - 52) := by
      calc den * 2 ^ ((num / den).log2 - 52)
          < 2 ^ (den.log2 + 1) * 2 ^ ((num / den).log2 - 52) :=
            Nat.mul_lt_mul_of_pos_right Nat.lt_log2_self (Nat.two_pow_pos _)
        _ ≤ 2 ^ (num.log2 - 52 + 1) := by
            rw [← Nat.pow_add]
            exact Nat.pow_le_pow_right (by omega) (by omega)
        _ = 2 * 2 ^ (num.log2 - 52) := Nat.pow_succ'
    omega

end Quotient

/-! ## Remainders and integer parts -/

theorem significant_of_dvd {n g : Nat} (multiple : 2 ^ g ∣ n) (small : n ≤ 2 ^ (53 + g)) :
    Significant n := by
  obtain ⟨q, rfl⟩ := multiple
  rw [Nat.mul_comm]
  apply significant_mul_pow
  rw [Nat.pow_add, Nat.mul_comm] at small
  exact Nat.le_of_mul_le_mul_right small (Nat.two_pow_pos g)

theorem lt_two_pow_bits (n : Nat) : n < 2 ^ (53 + (n.log2 - 52)) :=
  Nat.lt_log2_self.trans_le (Nat.pow_le_pow_right (by omega) (by omega))

theorem significant_mod {u v : Nat} (hu : Significant u) (hv : Significant v) (pos : 0 < v) :
    Significant (u % v) := by
  rcases Nat.le_total (u.log2 - 52) (v.log2 - 52) with low | high
  · apply significant_of_dvd (g := u.log2 - 52)
    · exact (Nat.dvd_mod_iff (two_pow_dvd_of_significant hv low)).2
        (two_pow_dvd_of_significant hu le_rfl)
    · exact (Nat.mod_le u v).trans (lt_two_pow_bits u).le
  · apply significant_of_dvd (g := v.log2 - 52)
    · exact (Nat.dvd_mod_iff (two_pow_dvd_of_significant hv le_rfl)).2
        (two_pow_dvd_of_significant hu high)
    · exact (Nat.mod_lt u pos).le.trans (lt_two_pow_bits v).le

theorem Significant.mul_two_pow {n : Nat} (h : Significant n) (k : Nat) :
    Significant (n * 2 ^ k) := by
  apply significant_of_dvd (g := n.log2 - 52 + k)
  · rw [Nat.pow_add]
    exact Nat.mul_dvd_mul_right (two_pow_dvd_of_significant h le_rfl) _
  · rw [← Nat.add_assoc, Nat.pow_add]
    exact Nat.mul_le_mul_right _ (lt_two_pow_bits n).le

/-- A number of at most 53 bits is an integer if it is not small. -/
theorem unitsPerOne_dvd_of_le {u : Nat} (h : Significant u) (large : 2 ^ 53 * unitsPerOne ≤ u) :
    unitsPerOne ∣ u := by
  have some : u ≠ 0 := by
    rintro rfl
    exact absurd large (Nat.not_le.2 (Nat.mul_pos (by decide) unitsPerOne_pos))
  have log : 53 + unitExponent ≤ u.log2 := by
    rwa [Nat.le_log2 some, Nat.pow_add, ← unitsPerOne]
  exact two_pow_dvd_of_significant h (by omega)

theorem significant_whole {u k : Nat} (hu : Significant u) (near : k ≤ 2 ^ 53 ∨ k * unitsPerOne = u) :
    Significant (k * unitsPerOne) := by
  rcases near with small | rfl
  · exact significant_mul_pow small
  · exact hu

/-- The integer part of a rounded quotient is that of the quotient, if the next multiple of the
divisor has at most 53 bits. -/
theorem roundUnits_div_unitsPerOne {u d : Nat} (hu : Significant u) (pos : 0 < d)
    (small : u / (d * unitsPerOne) ≤ 2 ^ 53)
    (next : Significant ((u / (d * unitsPerOne) + 1) * d)) :
    roundUnits u d / unitsPerOne = u / (d * unitsPerOne) := by
  have onePos := unitsPerOne_pos
  have least := Nat.div_mul_le_self u (d * unitsPerOne)
  have limit : u < (u / (d * unitsPerOne) + 1) * (d * unitsPerOne) :=
    (Nat.div_lt_iff_lt_mul (Nat.mul_pos pos onePos)).1 (Nat.lt_succ_self _)
  generalize u / (d * unitsPerOne) = k at *
  have aligned (k : Nat) : k * unitsPerOne * d = k * (d * unitsPerOne) := by ring
  apply le_antisymm
  · have large : 2 ^ 53 ≤ (k + 1) * unitsPerOne :=
      (Nat.pow_le_pow_right (by omega) (by decide)).trans (Nat.le_mul_of_pos_left _ (Nat.succ_pos k))
    have product : Significant ((k + 1) * unitsPerOne * d) := by
      rw [Nat.mul_right_comm]
      exact next.mul_two_pow unitExponent
    rw [← aligned] at limit
    exact Nat.lt_succ_iff.1 ((Nat.div_lt_iff_lt_mul onePos).2
      (roundUnits_lt_of_lt hu product large limit))
  · rw [← aligned] at least
    rw [Nat.le_div_iff_mul_le onePos]
    exact le_roundUnits (significant_mul_pow small) pos least

/-! ## Numbers of some magnitude -/

namespace Binary64

open Decimal (digits)

-- The unit and the limit are too large to be unfolded.
attribute [local irreducible] unitsPerOne unitsLimit

/-- A finite number of some sign and magnitude. -/
def HasUnits (x : Binary64) (negative : Bool) (units : Nat) : Prop :=
  ∃ significant bounded, x = .finite negative units significant bounded

variable {x y : Binary64} {a b : Bool} {u d : Nat}

theorem hasUnits_round (negative : Bool) {num den : Nat} (h : roundUnits num den < unitsLimit) :
    HasUnits (round negative num den) negative (roundUnits num den) :=
  ⟨roundUnits_significant num den, h, by rw [round, dif_pos h]⟩

theorem hasUnits_round_of_significant (negative : Bool) (h : Significant u) (bounded : u < unitsLimit) :
    HasUnits (round negative u 1) negative u := by
  have same : roundUnits u 1 = u := roundUnits_eq_self_iff.2 h
  have limit : roundUnits u 1 < unitsLimit := same.trans_lt bounded
  have rounded := hasUnits_round negative limit
  rwa [same] at rounded

theorem HasUnits.significant (h : HasUnits x a u) : Significant u := by
  obtain ⟨significant, -, -⟩ := h
  exact significant

theorem HasUnits.unique {v : Nat} (h : HasUnits x a u) (h' : HasUnits x b v) : u = v := by
  obtain ⟨_, _, rfl⟩ := h
  obtain ⟨_, _, same⟩ := h'
  injection same

theorem HasUnits.eq_roundUnits {num den : Nat} (h : HasUnits (round a num den) b u) :
    u = roundUnits num den := by
  obtain ⟨_, _, same⟩ := h
  rw [round] at same
  split at same
  · injection same with _ units
    exact units.symm
  · cases same

theorem HasUnits.abs (h : HasUnits x a u) : HasUnits x.abs false u := by
  obtain ⟨significant, bounded, rfl⟩ := h
  exact ⟨significant, bounded, rfl⟩

theorem HasUnits.isPositive (h : HasUnits x false u) : x.isPositive = true ↔ 0 < u := by
  obtain ⟨_, _, rfl⟩ := h
  simp [Binary64.isPositive, Nat.pos_iff_ne_zero]

theorem div_eq (x y : Binary64) : x / y = div x y := rfl

theorem mod_eq (x y : Binary64) : x % y = rem x y := rfl

theorem HasUnits.div_whole (hx : HasUnits x a u) (hy : IsWhole y false d) (pos : 0 < d) :
    HasUnits (x / y) a (roundUnits u d) := by
  obtain ⟨significant, bounded, rfl⟩ := hx
  obtain ⟨_, _, rfl⟩ := hy
  have some : d * unitsPerOne ≠ 0 := Nat.mul_ne_zero (Nat.ne_of_gt pos) (Nat.ne_of_gt unitsPerOne_pos)
  have limit : roundUnits u d < unitsLimit :=
    (roundUnits_le_of_le significant pos (Nat.le_mul_of_pos_right u pos)).trans_lt bounded
  rw [← roundUnits_scale u d unitsPerOne_pos] at limit ⊢
  rw [div_eq, div, if_neg some, Bool.bne_false]
  exact hasUnits_round a limit

theorem HasUnits.mod_whole (hx : HasUnits x a u) (hy : IsWhole y b d) (pos : 0 < d) :
    HasUnits (x % y) a (u % (d * unitsPerOne)) := by
  obtain ⟨significant, bounded, rfl⟩ := hx
  obtain ⟨divisor, _, rfl⟩ := hy
  have some : 0 < d * unitsPerOne := Nat.mul_pos pos unitsPerOne_pos
  rw [mod_eq, rem, if_neg (Nat.ne_of_gt some)]
  exact hasUnits_round_of_significant a (significant_mod significant divisor some)
    ((Nat.mod_le _ _).trans_lt bounded)

theorem HasUnits.floor (hx : HasUnits x false u) : IsWhole x.floor false (u / unitsPerOne) := by
  obtain ⟨significant, bounded, rfl⟩ := hx
  have near : u / unitsPerOne ≤ 2 ^ 53 ∨ u / unitsPerOne * unitsPerOne = u := by
    rcases Nat.le_total u (2 ^ 53 * unitsPerOne) with small | large
    · exact .inl (Nat.div_le_of_le_mul (by rwa [Nat.mul_comm]))
    · exact .inr (Nat.div_mul_cancel (unitsPerOne_dvd_of_le significant large))
  exact hasUnits_round_of_significant false (significant_whole significant near)
    ((Nat.div_mul_le_self _ _).trans_lt bounded)

theorem HasUnits.roundHalfAway (hx : HasUnits x false u) :
    IsWhole x.roundHalfAway false ((2 * u + unitsPerOne) / (2 * unitsPerOne)) := by
  obtain ⟨significant, bounded, rfl⟩ := hx
  have onePos := unitsPerOne_pos
  rcases Nat.le_total u (2 ^ 53 * unitsPerOne) with small | large
  · have near : (2 * u + unitsPerOne) / (2 * unitsPerOne) ≤ 2 ^ 53 := by
      apply Nat.le_of_lt_succ
      rw [Nat.div_lt_iff_lt_mul (by omega), Nat.succ_mul]
      omega
    exact hasUnits_round_of_significant false (significant_whole significant (.inl near))
      (mul_unitsPerOne_lt (near.trans_lt (by omega)))
  · obtain ⟨k, rfl⟩ := unitsPerOne_dvd_of_le significant large
    have half : (2 * (unitsPerOne * k) + unitsPerOne) / (2 * unitsPerOne) * unitsPerOne =
        unitsPerOne * k := by
      have split : 2 * (unitsPerOne * k) + unitsPerOne = unitsPerOne + 2 * unitsPerOne * k := by ring
      rw [split, Nat.add_mul_div_left _ _ (by omega), Nat.div_eq_of_lt (by omega), Nat.zero_add,
        Nat.mul_comm]
    exact hasUnits_round_of_significant false (significant_whole significant (.inr half))
      (half.trans_lt bounded)

/-- A number between integers is rounded to one of them or to an integer between them. -/
theorem nearest_bounds {k l : Nat} (low : k * unitsPerOne ≤ u) (high : u ≤ l * unitsPerOne) :
    k ≤ (2 * u + unitsPerOne) / (2 * unitsPerOne) ∧
      (2 * u + unitsPerOne) / (2 * unitsPerOne) ≤ l := by
  have onePos := unitsPerOne_pos
  have twice (n : Nat) : n * (2 * unitsPerOne) = 2 * (n * unitsPerOne) := Nat.mul_left_comm ..
  constructor
  · rw [Nat.le_div_iff_mul_le (by omega), twice]
    omega
  · have next : (l + 1) * unitsPerOne = l * unitsPerOne + unitsPerOne := Nat.succ_mul _ _
    rw [← Nat.lt_add_one_iff, Nat.div_lt_iff_lt_mul (by omega), twice]
    omega

theorem mul_eq (x y : Binary64) : x * y = mul x y := rfl

theorem HasUnits.of_mul_whole (h : HasUnits (x * y) a u) (hy : IsWhole y b d) :
    ∃ c v, HasUnits x c v ∧ u = roundUnits (v * d) 1 := by
  obtain ⟨_, _, rfl⟩ := hy
  cases x with
  | nan =>
    obtain ⟨_, _, none⟩ := h
    cases none
  | infinite c =>
    obtain ⟨_, _, none⟩ := h
    rw [mul_eq, mul] at none
    split at none <;> cases none
  | finite c v significant bounded =>
    refine ⟨c, v, ⟨significant, bounded, rfl⟩, ?_⟩
    have scaled := roundUnits_scale (v * d) 1 unitsPerOne_pos
    rw [Nat.one_mul, Nat.mul_assoc] at scaled
    rw [← scaled]
    exact h.eq_roundUnits

theorem IsWhole.mul {k l : Nat} (hx : IsWhole x false k) (hy : IsWhole y false l)
    (significant : Significant (k * l * unitsPerOne)) (bounded : k * l * unitsPerOne < unitsLimit) :
    IsWhole (x * y) false (k * l) := by
  obtain ⟨_, _, rfl⟩ := hx
  obtain ⟨_, _, rfl⟩ := hy
  have same : roundUnits (k * unitsPerOne * (l * unitsPerOne)) unitsPerOne = k * l * unitsPerOne := by
    have split : k * unitsPerOne * (l * unitsPerOne) = k * l * unitsPerOne * unitsPerOne := by ring
    have scaled := roundUnits_scale (k * l * unitsPerOne) 1 unitsPerOne_pos
    rw [Nat.one_mul] at scaled
    rw [split, scaled, roundUnits_eq_self_iff.2 significant]
  have rounded := hasUnits_round false (same.trans_lt bounded)
  rw [same] at rounded
  exact rounded

/-! ## Powers of ten -/

theorem significant_ten_pow {n : Nat} (h : n ≤ 22) : Significant (10 ^ n) := by
  have power : 10 ^ n = 5 ^ n * 2 ^ n := Nat.mul_pow 5 2 n
  rw [power]
  apply significant_mul_pow
  calc 5 ^ n ≤ 5 ^ 22 := Nat.pow_le_pow_right (by omega) h
    _ ≤ 2 ^ 53 := by decide

theorem significant_ten_pow_ones {n : Nat} (h : n ≤ 22) : Significant (10 ^ n * unitsPerOne) := by
  rw [unitsPerOne]
  exact (significant_ten_pow h).mul_two_pow unitExponent

theorem significant_mul_ten_pow {k n : Nat} (some : 0 < n) (small : k * 10 ^ n ≤ 10 ^ 16) :
    Significant (k * 10 ^ n * unitsPerOne) := by
  have split : k * 10 ^ n = k * 5 ^ n * 2 ^ n := by
    rw [Nat.mul_assoc, ← Nat.mul_pow]
  have odd : k * 5 ^ n ≤ 2 ^ 53 := by
    have twice : k * 5 ^ n * 2 ≤ k * 5 ^ n * 2 ^ n :=
      Nat.mul_le_mul_left _ (Nat.le_self_pow (by omega) 2)
    omega
  rw [split, unitsPerOne]
  exact ((significant_of_le odd).mul_two_pow n).mul_two_pow unitExponent

end Binary64

end MessageFormat
