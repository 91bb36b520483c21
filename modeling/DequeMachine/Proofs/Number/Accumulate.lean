/-
  DequeMachine/Proofs/Number/Accumulate.lean
  ==========================================
  **Digits taken in from the left do not add up their errors.**

  A radix literal is read by multiplying and adding, with two roundings for each digit.  As
  long as the value has at most 53 binary digits, none of them changes anything
  (`Magnitude.scale_add_ofNat`).  The digit that brings it past that rounds once.  From then
  on the radix, being a power of two, moves the rank by whole binades, and the digit is less
  than half of the way to the next rank, so that it is lost (`Magnitude.scale_add_ofRank`).

  Two things follow from knowing in this way what is accumulated (`Literal.Accumulates`).  The
  rank reached is next to the exact value, which the leading digits bound on both sides
  (`Accumulates.exists_rank`).  And it depends on the value alone and grows with it, although
  the rounding takes place after as many digits as the value happens to have
  (`Accumulates.rank_le`).
-/
import DequeMachine.Proofs.Number.Exact
import DequeMachine.Proofs.Number.Nearest
import DequeMachine.Proofs.Number.Prefixed

namespace DequeMachine

/-! ### Rounding in the row without end -/

/-- So many binades further up, the way to the next rank is long enough for a digit of as many
    binary places, twice over. -/
theorem unitsAtRank_add_digit_lt {rank k d : Nat} (h : wholeRank ≤ rank) (hd : d < 2 ^ k) :
    unitsAtRank (rank + k * binadeSize) + 2 * (d * unitsPerOne) <
      unitsAtRank (rank + k * binadeSize + 1) := by
  have hfirst := binadeSize_le_of_wholeRank_le h
  have hgap := unitsAtRank_add_le_succ h
  have hpos : 0 < unitsPerOne := zero_lt_unitsPerOne
  rw [Nat.add_right_comm, unitsAtRank_add_binades hfirst,
    unitsAtRank_add_binades (Nat.le_succ_of_le hfirst)]
  generalize unitsPerOne = unit at hgap hpos ⊢
  calc unitsAtRank rank * 2 ^ k + 2 * (d * unit)
      < unitsAtRank rank * 2 ^ k + 2 * (2 ^ k * unit) := by
        have := Nat.mul_lt_mul_of_pos_right hd hpos
        omega
    _ = (unitsAtRank rank + 2 * unit) * 2 ^ k := by ring
    _ ≤ unitsAtRank (rank + 1) * 2 ^ k := Nat.mul_le_mul_right _ hgap

namespace Magnitude

/-- A rank of the row without end, which is infinity from some place on. -/
def ofRank (rank : Nat) : Magnitude := ⟨min rank topRank, Nat.min_le_right _ _⟩

theorem ofUnits_eq (units : Nat) : ofUnits units = ofRank (nearestRank units 1) := rfl

theorem ofUnits_unitsAtRank (rank : Nat) : ofUnits (unitsAtRank rank) = ofRank rank := by
  rw [ofUnits_eq, nearestRank_unitsAtRank_one]

@[simp] theorem units_ofRank (rank : Nat) : (ofRank rank).units = unitsAtRank (min rank topRank) :=
  rfl

theorem ofRank_min_add (rank n : Nat) : ofRank (min rank topRank + n) = ofRank (rank + n) := by
  apply Magnitude.ext
  show min (min rank topRank + n) topRank = min (rank + n) topRank
  generalize topRank = top
  omega

theorem ofRank_min (rank : Nat) : ofRank (min rank topRank) = ofRank rank := ofRank_min_add rank 0

/-! ### One more digit -/

section Digit

variable {k d : Nat} (hk : k ≤ 4) (hd : d < 2 ^ k)
include hk hd

/-- As long as the value has at most 53 binary digits, a digit is taken in exactly, and the
    first value to have more is rounded once. -/
theorem scale_add_ofNat {n : Nat} (hn : n < 2 ^ 53) :
    ((ofNat n).scale (2 ^ k)).add (ofNat d) = ofNat (n * 2 ^ k + d) := by
  have hdigit : d < 2 ^ 53 := hd.trans_le (Nat.pow_le_pow_right two_pos (by omega))
  have hscaled : ((ofNat n).scale (2 ^ k)).units = n * 2 ^ k * unitsPerOne := by
    rw [scale, units_ofNat hn, Nat.mul_right_comm]
    refine units_ofUnits ?_ ?_
    · obtain ⟨e, he⟩ := exists_unitsPerOne_eq
      rw [he, Nat.mul_assoc, ← Nat.pow_add]
      exact exists_unitsAtRank_eq hn
    · have htop : 2 ^ 53 * 2 ^ 4 * unitsPerOne ≤ unitsAtRank topRank := by
        rw [unitsAtRank_topRank, ← pow_add]
        exact Nat.mul_le_mul_right _ (pow_le_pow_right₀ one_le_two (by decide))
      have hfactor : 2 ^ k ≤ 2 ^ 4 := Nat.pow_le_pow_right two_pos hk
      exact (Nat.mul_le_mul_right _ (Nat.mul_le_mul hn.le hfactor)).trans htop
  rw [add, hscaled, units_ofNat hdigit, ← Nat.add_mul, ofNat]

/-- From 2^53 on a digit moves the rank by as many binades as it has binary digits, and what
    it is worth itself does not matter. -/
theorem scale_add_ofRank {rank : Nat} (hrank : wholeRank ≤ rank) :
    ((ofRank rank).scale (2 ^ k)).add (ofNat d) = ofRank (rank + k * binadeSize) := by
  have hdigit : d < 2 ^ 53 := hd.trans_le (Nat.pow_le_pow_right two_pos (by omega))
  have hfirst : binadeSize ≤ min rank topRank :=
    le_min (binadeSize_le_of_wholeRank_le hrank) (by decide)
  have hscaled : (ofRank rank).scale (2 ^ k) = ofRank (rank + k * binadeSize) := by
    rw [scale, units_ofRank, ← unitsAtRank_add_binades hfirst, ofUnits_unitsAtRank, ofRank_min_add]
  -- the rank that was reached, seen from one digit before
  obtain ⟨before, hbefore, hreached⟩ : ∃ before, wholeRank ≤ before ∧
      min (rank + k * binadeSize) topRank = before + k * binadeSize := by
    have hsplit : ∀ first shift top : Nat, first ≤ rank → first + shift ≤ top →
        ∃ before, first ≤ before ∧ min (rank + shift) top = before + shift :=
      fun first shift top _ _ => ⟨min (rank + shift) top - shift, by omega, by omega⟩
    have hroom : wholeRank + 4 * binadeSize ≤ topRank := by decide
    exact hsplit _ _ _ hrank
      ((Nat.add_le_add_left (Nat.mul_le_mul_right _ hk) wholeRank).trans hroom)
  rw [hscaled, add, units_ofRank, units_ofNat hdigit, hreached, ofUnits_eq,
    nearestRank_add (unitsAtRank_add_digit_lt hbefore hd), ← hreached, ofRank_min]

end Digit

end Magnitude

/-! ### A row of digits -/

theorem wholeRank_le_rankBelow {lead : Nat} (h : 2 ^ 53 ≤ lead) :
    wholeRank ≤ rankBelow (lead * unitsPerOne) := by
  rw [← unitsAtRank_le_iff, unitsAtRank_wholeRank]
  exact Nat.mul_le_mul_right _ h

theorem wholeRank_le_nearestRank {lead : Nat} (h : 2 ^ 53 ≤ lead) :
    wholeRank ≤ nearestRank (lead * unitsPerOne) 1 := by
  have hround := rankBelow_le_nearestRank (lead * unitsPerOne) 1
  rw [Nat.div_one] at hround
  exact (wholeRank_le_rankBelow h).trans hround

theorem nearestRank_le_wholeRank_add {lead k : Nat} (h : lead ≤ 2 ^ 53 * 2 ^ k) :
    nearestRank (lead * unitsPerOne) 1 ≤ wholeRank + k * binadeSize := by
  have hunits : lead * unitsPerOne ≤ unitsAtRank (wholeRank + k * binadeSize) := by
    rw [unitsAtRank_add_binades (binadeSize_le_of_wholeRank_le le_rfl), unitsAtRank_wholeRank,
      Nat.mul_right_comm]
    exact Nat.mul_le_mul_right _ h
  exact (nearestRank_monotone hunits).trans_eq (nearestRank_unitsAtRank_one _)

/-- The leading digits say between which ranks a value lies, because the next rank is worth a
    whole number. -/
theorem rankBelow_of_lead {lead value k : Nat} (hlow : 2 ^ 53 ≤ lead) (hfill : lead * 2 ^ k ≤ value)
    (hrest : value < (lead + 1) * 2 ^ k) :
    rankBelow (value * unitsPerOne) = rankBelow (lead * unitsPerOne) + k * binadeSize := by
  obtain ⟨hle, hlt⟩ := rankBelow_spec (lead * unitsPerOne)
  have hbelow := wholeRank_le_rankBelow hlow
  have hfirst := binadeSize_le_of_wholeRank_le hbelow
  have hnext : (lead + 1) * unitsPerOne ≤ unitsAtRank (rankBelow (lead * unitsPerOne) + 1) := by
    obtain ⟨whole, hwhole⟩ := Nat.dvd_trans (Nat.dvd_mul_left unitsPerOne 2)
      (two_mul_unitsPerOne_dvd_unitsAtRank (wholeRank_le_iff.mp (Nat.le_succ_of_le hbelow)))
    rw [hwhole, Nat.mul_comm unitsPerOne] at hlt ⊢
    exact Nat.mul_le_mul_right _ (Nat.lt_of_mul_lt_mul_right hlt)
  rw [rankBelow_eq_iff, Nat.add_right_comm, unitsAtRank_add_binades hfirst,
    unitsAtRank_add_binades (Nat.le_succ_of_le hfirst)]
  constructor
  · calc unitsAtRank (rankBelow (lead * unitsPerOne)) * 2 ^ k
        ≤ lead * unitsPerOne * 2 ^ k := Nat.mul_le_mul_right _ hle
      _ = lead * 2 ^ k * unitsPerOne := Nat.mul_right_comm ..
      _ ≤ value * unitsPerOne := Nat.mul_le_mul_right _ hfill
  · calc value * unitsPerOne
        < (lead + 1) * 2 ^ k * unitsPerOne :=
          Nat.mul_lt_mul_of_pos_right hrest zero_lt_unitsPerOne
      _ = (lead + 1) * unitsPerOne * 2 ^ k := Nat.mul_right_comm ..
      _ ≤ _ := Nat.mul_le_mul_right _ hnext

namespace Literal

/-- What digits of a value are accumulated to.  The leading digits that make up 2^53 or more
    are rounded once, and each digit after them moves the rank. -/
inductive Accumulates (r : Radix) (value : Nat) : Magnitude → Prop
  | exact (h : value < 2 ^ 53) : Accumulates r value (.ofNat value)
  | moved (lead count : Nat) (hlow : 2 ^ 53 ≤ lead) (hhigh : lead < 2 ^ 53 * r.base)
      (hlead : value / r.base ^ count = lead) :
      Accumulates r value
        (.ofRank (nearestRank (lead * unitsPerOne) 1 + count * (r.bits * binadeSize)))

theorem Radix.bits_le (r : Radix) : r.bits ≤ 4 := by cases r <;> decide

theorem Radix.base_pos (r : Radix) : 0 < r.base := Nat.two_pow_pos _

namespace Accumulates

variable {r : Radix} {value value' d : Nat} {m m' : Magnitude}

/-- **One more digit.** -/
theorem step (h : Accumulates r value m) (hd : d < r.base) :
    Accumulates r (value * r.base + d) ((m.scale r.base).add (.ofNat d)) := by
  cases h with
  | exact hvalue =>
    rw [Radix.base, Magnitude.scale_add_ofNat r.bits_le hd hvalue, ← Radix.base]
    by_cases hsmall : value * r.base + d < 2 ^ 53
    · exact .exact hsmall
    · have hhigh : value * r.base + d < 2 ^ 53 * r.base := by
        calc value * r.base + d < (value + 1) * r.base := by rw [Nat.succ_mul]; omega
          _ ≤ 2 ^ 53 * r.base := Nat.mul_le_mul_right _ hvalue
      have hmoved := Accumulates.moved (r := r) _ 0 (Nat.not_lt.mp hsmall) hhigh (Nat.div_one _)
      rwa [Nat.zero_mul, Nat.add_zero] at hmoved
  | moved lead count hlow hhigh hlead =>
    have hrank : wholeRank ≤
        nearestRank (lead * unitsPerOne) 1 + count * (r.bits * binadeSize) :=
      Nat.le_add_right_of_le (wholeRank_le_nearestRank hlow)
    rw [Radix.base, Magnitude.scale_add_ofRank r.bits_le hd hrank, ← Radix.base, Nat.add_assoc,
      ← Nat.succ_mul]
    refine .moved lead (count + 1) hlow hhigh ?_
    have hquot : (value * r.base + d) / r.base = value := by
      rw [Nat.mul_comm, Nat.mul_add_div r.base_pos, Nat.div_eq_of_lt hd, Nat.add_zero]
    rw [Nat.pow_succ', ← Nat.div_div_eq_div_mul, hquot, hlead]

theorem foldl {digits : List Nat} (hdigits : ∀ d ∈ digits, d < r.base)
    (h : Accumulates r value m) :
    Accumulates r (digits.foldl (fun n d => n * r.base + d) value)
      (digits.foldl (fun m d => (m.scale r.base).add (.ofNat d)) m) := by
  induction digits generalizing value m with
  | nil => exact h
  | cons d rest ih =>
    have hd := hdigits d List.mem_cons_self
    exact ih (fun d' hd' => hdigits d' (List.mem_cons_of_mem _ hd')) (h.step hd)

end Accumulates

/-- **A radix literal accumulates its value.** -/
theorem Prefixed.accumulates (p : Prefixed) :
    Accumulates p.radix p.value (accumulate p.radix.base p.values) := by
  have hvalue : p.value = p.values.foldl (fun n d => n * p.radix.base + d) 0 := by
    rw [Prefixed.value, Nat.ofDigits_eq_foldr, List.foldr_reverse]
    simp only [Nat.cast_id]
    congr 1
    funext n d
    ring
  have hdigits : ∀ d ∈ p.values, d < p.radix.base := by
    intro d hd
    obtain ⟨digit, -, rfl⟩ := List.mem_map.mp hd
    exact digit.value.isLt
  have hzero : Magnitude.ofNat 0 = .zero := by
    rw [Magnitude.ofNat, Nat.zero_mul]
    exact Magnitude.ofUnits_units .zero
  have hnothing : Accumulates p.radix 0 .zero := hzero ▸ .exact (Nat.two_pow_pos 53)
  rw [hvalue]
  exact hnothing.foldl hdigits

namespace Accumulates

variable {r : Radix} {value value' : Nat} {m m' : Magnitude}

/-- **Larger values are not accumulated to less.**  A value with more digits behind its leading
    ones has gone further up by a whole digit, and rounding cannot make up for that. -/
theorem rank_le (h : Accumulates r value m) (h' : Accumulates r value' m')
    (hle : value ≤ value') : m.rank ≤ m'.rank := by
  cases h with
  | exact hvalue =>
    cases h' with
    | exact hvalue' =>
      exact min_le_min_right _ (nearestRank_monotone (Nat.mul_le_mul_right _ hle))
    | moved lead count hlow hhigh hlead =>
      have hsmall : nearestRank (value * unitsPerOne) 1 ≤ wholeRank := by
        have := nearestRank_le_wholeRank_add (show value ≤ 2 ^ 53 * 2 ^ 0 by omega)
        omega
      have hlarge := wholeRank_le_nearestRank hlow
      exact min_le_min_right _ (by omega)
  | moved lead count hlow hhigh hlead =>
    cases h' with
    | exact hvalue' =>
      have := Nat.div_le_self value (r.base ^ count)
      omega
    | moved lead' count' hlow' hhigh' hlead' =>
      refine min_le_min_right _ ?_
      rcases Nat.lt_trichotomy count count' with hfewer | rfl | hmore
      · calc nearestRank (lead * unitsPerOne) 1 + count * (r.bits * binadeSize)
            ≤ wholeRank + r.bits * binadeSize + count * (r.bits * binadeSize) :=
              Nat.add_le_add_right (nearestRank_le_wholeRank_add hhigh.le) _
          _ = wholeRank + (count + 1) * (r.bits * binadeSize) := by ring
          _ ≤ nearestRank (lead' * unitsPerOne) 1 + count' * (r.bits * binadeSize) :=
              Nat.add_le_add (wholeRank_le_nearestRank hlow') (Nat.mul_le_mul_right _ hfewer)
      · have hleads : lead ≤ lead' := by
          rw [← hlead, ← hlead']
          exact Nat.div_le_div_right hle
        exact Nat.add_le_add_right (nearestRank_monotone (Nat.mul_le_mul_right _ hleads)) _
      · have hpos : 0 < r.base ^ count' := Nat.pow_pos r.base_pos
        have hbelow : value' < 2 ^ 53 * r.base * r.base ^ count' :=
          (Nat.div_lt_iff_lt_mul hpos).mp (hlead' ▸ hhigh')
        have habove : 2 ^ 53 * r.base ^ count ≤ value :=
          (Nat.le_div_iff_mul_le (Nat.pow_pos r.base_pos)).mp (hlead ▸ hlow)
        have hpower : r.base * r.base ^ count' ≤ r.base ^ count := by
          rw [← Nat.pow_succ']
          exact Nat.pow_le_pow_right r.base_pos hmore
        have := Nat.mul_le_mul_left (2 ^ 53) hpower
        rw [← Nat.mul_assoc] at this
        omega

/-- **The rank that is reached is next to the value.**  It is the last one below the value, or
    the one behind that if the value lies between the two. -/
theorem exists_rank (h : Accumulates r value m) (hvalue : 2 ^ 53 ≤ value) :
    ∃ rank, m = .ofRank rank ∧ (rank = rankBelow (value * unitsPerOne) ∨
      rank = rankBelow (value * unitsPerOne) + 1 ∧
        unitsAtRank (rankBelow (value * unitsPerOne)) ≠ value * unitsPerOne) := by
  cases h with
  | exact hsmall => exact absurd hvalue (Nat.not_le.mpr hsmall)
  | moved lead count hlow hhigh hlead =>
    refine ⟨_, rfl, ?_⟩
    have hbase : r.base ^ count = 2 ^ (r.bits * count) := (Nat.pow_mul 2 r.bits count).symm
    have hfill : lead * 2 ^ (r.bits * count) ≤ value := by
      rw [← hbase, ← hlead]
      exact Nat.div_mul_le_self _ _
    have hrest : value < (lead + 1) * 2 ^ (r.bits * count) := by
      rw [← hbase, ← hlead, Nat.mul_comm]
      exact Nat.lt_mul_div_succ value (Nat.pow_pos r.base_pos)
    have hmoved : count * (r.bits * binadeSize) = r.bits * count * binadeSize := by ring
    rw [rankBelow_of_lead hlow hfill hrest, hmoved]
    rcases nearestRank_cases (lead * unitsPerOne) 1 with ⟨hrank, -⟩ | ⟨hrank, hmiddle, -⟩
    · rw [hrank, Nat.div_one]
      exact .inl rfl
    · refine .inr ⟨by rw [hrank, Nat.div_one, Nat.add_right_comm], ?_⟩
      -- what is rounded up is worth more than the rank below, and remains so further up
      obtain ⟨hle, -⟩ := rankBelow_spec (lead * unitsPerOne)
      have hlt : unitsAtRank (rankBelow (lead * unitsPerOne)) < lead * unitsPerOne := by
        have := unitsAtRank_lt_succ (rankBelow (lead * unitsPerOne))
        rw [Nat.div_one] at hmiddle
        omega
      rw [unitsAtRank_add_binades (binadeSize_le_of_wholeRank_le (wholeRank_le_rankBelow hlow))]
      refine Nat.ne_of_lt ?_
      calc unitsAtRank (rankBelow (lead * unitsPerOne)) * 2 ^ (r.bits * count)
          < lead * unitsPerOne * 2 ^ (r.bits * count) :=
            Nat.mul_lt_mul_of_pos_right hlt (Nat.two_pow_pos _)
        _ = lead * 2 ^ (r.bits * count) * unitsPerOne := Nat.mul_right_comm ..
        _ ≤ value * unitsPerOne := Nat.mul_le_mul_right _ hfill

end Accumulates

end Literal

/-! ### Neighbours -/

namespace Magnitude

/-- A magnitude is next to a number that is not one itself: the last one before it or the
    first one behind it.  Infinity stands for 2^1024 here. -/
def IsNeighbour (m : Magnitude) (q : ℚ) : Prop :=
  m.worth < q ∧ (∀ other : Magnitude, other.worth ≤ q → other.worth ≤ m.worth) ∨
    q < m.worth ∧ ∀ other : Magnitude, q ≤ other.worth → m.worth ≤ other.worth

theorem ofRank_rank (m : Magnitude) : ofRank m.rank = m :=
  Magnitude.ext (Nat.min_eq_left m.rank_le)

theorem ofRank_eq_infinity {rank : Nat} (h : topRank ≤ rank) : ofRank rank = infinity :=
  Magnitude.ext (Nat.min_eq_right h)

end Magnitude

namespace Literal.Accumulates

variable {r : Radix} {value : Nat} {m : Magnitude} (h : Accumulates r value m)
include h

/-- A value that is a magnitude is accumulated to this magnitude. -/
theorem eq_of_worth {other : Magnitude} (hother : other.worth = value) : m = other := by
  have hunits := Magnitude.worth_eq_iff.mp hother
  by_cases hsmall : value < 2 ^ 53
  · cases h with
    | exact => rw [Magnitude.ofNat, ← hunits, Magnitude.ofUnits_units]
    | moved lead count hlow hhigh hlead =>
      have := Nat.div_le_self value (r.base ^ count)
      omega
  · obtain ⟨rank, rfl, hrank⟩ := h.exists_rank (Nat.not_lt.mp hsmall)
    rw [← hunits, Magnitude.units, rankBelow_unitsAtRank] at hrank
    rcases hrank with rfl | ⟨-, hne⟩
    · exact Magnitude.ofRank_rank other
    · exact absurd rfl hne

theorem eq_infinity (hvalue : 2 ^ 1024 ≤ value) : m = .infinity := by
  have hunits : unitsAtRank topRank ≤ value * unitsPerOne := by
    rw [unitsAtRank_topRank]
    exact Nat.mul_le_mul_right _ hvalue
  have hlarge : 2 ^ 53 ≤ value := by
    have hle := lt_unitsAtRank_topRank.le.trans hunits
    exact Nat.le_of_mul_le_mul_right hle zero_lt_unitsPerOne
  obtain ⟨rank, rfl, hrank⟩ := h.exists_rank hlarge
  have htop := unitsAtRank_le_iff.mp hunits
  exact Magnitude.ofRank_eq_infinity (by omega)

/-- A value that is none, and is not too large, is accumulated to one of its neighbours. -/
theorem isNeighbour (hvalue : value < 2 ^ 1024)
    (hnone : ∀ other : Magnitude, other.isFinite = true → other.worth ≠ value) :
    m.IsNeighbour value := by
  have hlarge : 2 ^ 53 ≤ value := by
    by_contra hsmall
    have hlt : value < 2 ^ 53 := Nat.not_le.mp hsmall
    exact hnone (.ofNat value) (Magnitude.isFinite_ofNat hlt)
      (Magnitude.worth_eq_iff.mpr (Magnitude.units_ofNat hlt))
  obtain ⟨rank, rfl, hrank⟩ := h.exists_rank hlarge
  obtain ⟨hle, hlt⟩ := rankBelow_spec (value * unitsPerOne)
  have hbelow : rankBelow (value * unitsPerOne) < topRank := by
    rw [← Nat.not_le, ← unitsAtRank_le_iff, Nat.not_le, unitsAtRank_topRank]
    exact Nat.mul_lt_mul_of_pos_right hvalue zero_lt_unitsPerOne
  have hne : unitsAtRank (rankBelow (value * unitsPerOne)) ≠ value * unitsPerOne := by
    intro heq
    exact hnone ⟨_, hbelow.le⟩ (decide_eq_true hbelow)
      (Magnitude.worth_eq_iff.mpr heq)
  generalize rankBelow (value * unitsPerOne) = below at hrank hle hlt hbelow hne
  rcases hrank with rfl | ⟨rfl, -⟩
  · have hself : (Magnitude.ofRank rank).rank = rank := Nat.min_eq_left hbelow.le
    refine .inl ⟨?_, fun other hother => ?_⟩
    · rw [← not_le, Magnitude.natCast_le_worth_iff, Nat.not_le, Magnitude.units, hself]
      exact Nat.lt_of_le_of_ne hle hne
    · rw [Magnitude.worth_le_iff, hself, ← Nat.lt_succ_iff, ← unitsAtRank_strictMono.lt_iff_lt]
      exact (Magnitude.worth_le_natCast_iff.mp hother).trans_lt hlt
  · have hself : (Magnitude.ofRank (below + 1)).rank = below + 1 := Nat.min_eq_left hbelow
    refine .inr ⟨?_, fun other hother => ?_⟩
    · rw [← not_le, Magnitude.worth_le_natCast_iff, Nat.not_le, Magnitude.units, hself]
      exact hlt
    · rw [Magnitude.worth_le_iff, hself, Nat.succ_le_iff, ← unitsAtRank_strictMono.lt_iff_lt]
      exact (Nat.lt_of_le_of_ne hle hne).trans_le (Magnitude.natCast_le_worth_iff.mp hother)

end Literal.Accumulates

namespace Number

open Literal

theorem read?_prefixed {text : String} {p : Prefixed}
    (h : Text.trim isMargin text.toList = p.chars) :
    read? text = some (.signed false (accumulate p.radix.base p.values)) := by
  have hne : p.chars.isEmpty = false := rfl
  rw [read?, readChars, h, readTrimmed, hne, radix?_chars]
  exact readRadix_chars p

/-- **Radix literals are exact when they can be, and otherwise read as a neighbour.**  From
    2^1024 on they are infinity, and what is written larger in the same radix is not read as
    less. -/
theorem read?_radix {text : String} {p : Prefixed}
    (h : Text.trim isMargin text.toList = p.chars) :
    ∃ m : Magnitude, read? text = some (.signed false m) ∧
      (∀ other : Magnitude, other.isFinite = true → other.worth = p.value → m = other) ∧
      (p.value < 2 ^ 1024 →
        (∀ other : Magnitude, other.isFinite = true → other.worth ≠ p.value) →
        m.IsNeighbour p.value) ∧
      (2 ^ 1024 ≤ p.value → m = .infinity) ∧
      ∀ (text' : String) (q : Prefixed), Text.trim isMargin text'.toList = q.chars →
        q.radix = p.radix → p.value ≤ q.value →
        ∃ m' : Magnitude, read? text' = some (.signed false m') ∧ m.worth ≤ m'.worth := by
  have hp := p.accumulates
  refine ⟨_, read?_prefixed h, fun other _ hother => hp.eq_of_worth hother, hp.isNeighbour,
    hp.eq_infinity, fun text' q h' hradix hle => ⟨_, read?_prefixed h', ?_⟩⟩
  have hq := q.accumulates
  rw [hradix] at hq ⊢
  exact Magnitude.worth_le_iff.mpr (hp.rank_le hq hle)

/-- Two to the power of 57 and 31 more, an odd number that is written with one digit more than
    is taken in exactly, is read as a neighbour. -/
theorem read?_radix_odd :
    ∃ m : Magnitude, read? " 0x20000000000001F\n" = some (.signed false m) ∧
      m.IsNeighbour 144115188075855903 := by
  let digit (value : Fin 16) : Radix.hexadecimal.Digit := ⟨value, true⟩
  let p : Prefixed :=
    ⟨.hexadecimal, false, [2, 0, 0, 0, 0, 0, 0, 0, 0, 0, 0, 0, 0, 1, 15].map digit, by decide⟩
  have h : Text.trim isMargin " 0x20000000000001F\n".toList = p.chars := by decide
  have hvalue : p.value = 144115188075855903 := by decide
  obtain ⟨m, hread, -, hneighbour, -⟩ := read?_radix h
  have hlt : p.value < 2 ^ 1024 := by
    rw [hvalue]
    decide +kernel
  have hnone : ∀ other : Magnitude, other.isFinite = true → other.worth ≠ p.value := by
    intro other _ hother
    have hunits := Magnitude.worth_eq_iff.mp hother
    have heven : 2 * unitsPerOne ∣ unitsAtRank other.rank := by
      apply two_mul_unitsPerOne_dvd_unitsAtRank
      rw [← Magnitude.units, hunits, hvalue]
      exact Nat.mul_le_mul_right _ (by decide)
    rw [← Magnitude.units, hunits, Nat.mul_dvd_mul_iff_right zero_lt_unitsPerOne, hvalue] at heven
    exact absurd heven (by decide)
  have hm := hneighbour hlt hnone
  rw [hvalue] at hm
  exact ⟨m, hread, by exact_mod_cast hm⟩

-- The neighbour may be the one that is farther away: here the other one is off by one only.
example : read? "0x20000000000001F" = some (ofNat (2 ^ 57)) := by decide +kernel

end Number

end DequeMachine
