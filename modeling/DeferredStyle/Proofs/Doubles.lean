import DeferredStyle.Json.Number
import Mathlib.Algebra.Group.Nat.Defs

/-!
# Finite doubles

Arithmetic on doubles unpacks them into a whole mantissa and an exponent, rounds, and packs the
result, which becomes infinite if its exponent is too large.  What is finite stays finite as long as
the result is not too large, and division by ten and more never makes it so.

* `Packs` — the unpacked numbers that are finite when packed.
* `packs_roundWithAccuracy`, `exists_roundWithAccuracy_eq` — rounding a number that is small enough,
  and one that is not subnormal.
* `isFinite_toFloat`, `isFinite_neg`, `isFinite_mul`, `isFinite_div` — the operations that numbers
  are read with.
* `isLarge_tenTo`, `isFinite_of_scale?` — powers of ten, and numbers that are scaled by them.
-/

set_option autoImplicit false

namespace DeferredStyle.Doubles

open Float.Model Float.Model.UnpackedFloat Json

/-! ## Packing -/

/-- The unpacked number is finite, and so is the double it is packed to.  The greatest exponent of a
mantissa of 53 bits is 971. -/
def Packs : UnpackedFloat → Prop
  | .zero _ => True
  | .finite _ _ e _ => e ≤ 971
  | _ => False

theorem isFinite_unpack_iff (b : BitVec 64) :
    (UnpackedFloat.unpack Format.binary64 b).isFinite = true ↔
      @unpackExponent Format.binary64 b ≠ -1#11 := by
  unfold UnpackedFloat.unpack
  dsimp only
  by_cases hexponent : @unpackExponent Format.binary64 b = -1#11
  · rw [if_pos hexponent]
    refine iff_of_false (fun h => ?_) fun h => h hexponent
    split at h <;> cases h
  · rw [if_neg hexponent]
    refine iff_of_true ?_ hexponent
    by_cases hzero : @unpackExponent Format.binary64 b = 0#11
    · rw [if_pos hzero]
      by_cases hmantissa : @unpackMantissa Format.binary64 b = 0#52
      · rw [dif_pos hmantissa]
        rfl
      · rw [dif_neg hmantissa]
        rfl
    · rw [if_neg hzero]
      rfl

/-- A mantissa of 53 bits is packed with its exponent, a shorter one as a subnormal number. -/
theorem pack_finite {s : Sign} {m : Nat} {e : Int} (hm : 0 < m) (he : e ≤ 971) :
    UnpackedFloat.pack Format.binary64 (.finite s m e hm) =
      if m.log2 + 1 = 53 then
        packComponents Format.binary64 s (BitVec.ofNat 11 (e + 1023 + 52).toNat) (BitVec.ofNat 52 m)
      else packComponents Format.binary64 s 0#11 (BitVec.ofNat 52 m) := by
  have hsmall : ¬ 2 ^ 11 ≤ (e + 1023 + 52).toNat + 1 := by omega
  exact if_neg hsmall

theorem toNat_exponent {e : Int} (he : e ≤ 971) :
    (BitVec.ofNat 11 (e + 1023 + 52).toNat).toNat = (e + 1023 + 52).toNat := by
  rw [BitVec.toNat_ofNat, Nat.mod_eq_of_lt (by omega)]

theorem isFinite_pack {f : UnpackedFloat} (h : Packs f) : (Float.Model.pack f).isFinite = true := by
  change (UnpackedFloat.unpack Format.binary64
    (UnpackedFloat.pack Format.binary64 f)).isFinite = true
  rw [isFinite_unpack_iff]
  cases f with
  | zero s =>
    change unpackExponent (packComponents Format.binary64 s 0#11 0#52) ≠ _
    rw [unpackExponent_packComponents]
    decide
  | finite s m e hm =>
    have he : e ≤ 971 := h
    rw [pack_finite hm he]
    split
    · -- the exponent of a normal number is not that of infinity
      rw [unpackExponent_packComponents]
      intro heq
      have hnat := toNat_exponent he
      rw [heq] at hnat
      change 2047 = _ at hnat
      omega
    · rw [unpackExponent_packComponents]
      decide
  | infinity s => exact h.elim
  | notANumber => exact h.elim

theorem log2_lt_of_lt {n k : Nat} (h : n < 2 ^ k) (hk : 0 < k) : n.log2 < k := by
  by_cases hn : n = 0
  · subst hn
    simpa using hk
  · exact (Nat.log2_lt hn).mpr h

/-- A number that was unpacked from a finite double can be packed again, and it is below
`2^1024`. -/
theorem packs_unpack {x : Float.Model} (h : x.isFinite = true) :
    Packs x.unpack ∧ ∀ s m e hm, x.unpack = .finite s m e hm → totalExponent m e ≤ 1024 := by
  have hexponent := (isFinite_unpack_iff x.toBits.toBitVec).mp h
  have hlt : (@unpackExponent Format.binary64 x.toBits.toBitVec).toNat < 2048 :=
    (@unpackExponent Format.binary64 x.toBits.toBitVec).isLt
  have hne : (@unpackExponent Format.binary64 x.toBits.toBitVec).toNat ≠ 2047 :=
    fun heq => hexponent (BitVec.eq_of_toNat_eq heq)
  have hbias : Format.binary64.exponentBias = 1023 := rfl
  have hbits : Format.binary64.mantissaBitsWithoutImplicit = 52 := rfl
  unfold Float.Model.unpack UnpackedFloat.unpack
  dsimp only
  rw [if_neg hexponent]
  by_cases hzero : @unpackExponent Format.binary64 x.toBits.toBitVec = 0#11
  · rw [if_pos hzero, hzero]
    by_cases hmantissa : @unpackMantissa Format.binary64 x.toBits.toBitVec = 0#52
    · rw [dif_pos hmantissa]
      exact ⟨trivial, fun s m e hm heq => by cases heq⟩
    · rw [dif_neg hmantissa]
      refine ⟨?_, fun s m e hm heq => ?_⟩
      · change _ ≤ (971 : Int)
        rw [BitVec.toNat_zero]
        omega
      · cases heq
        have hlog : (@unpackMantissa Format.binary64 x.toBits.toBitVec).toNat.log2 < 52 :=
          log2_lt_of_lt (BitVec.isLt _) (by decide)
        rw [totalExponent, BitVec.toNat_zero]
        omega
  · rw [if_neg hzero]
    refine ⟨?_, fun s m e hm heq => ?_⟩
    · change _ ≤ (971 : Int)
      omega
    · cases heq
      have hlog :
          (1#1 ++ @unpackMantissa Format.binary64 x.toBits.toBitVec).toNat.log2 < 53 :=
        log2_lt_of_lt (BitVec.isLt _) (by decide)
      rw [totalExponent]
      omega

/-- The mantissa of a number that is not subnormal has its greatest bit set. -/
theorem exists_unpack_eq {b : BitVec 64}
    (hfinite : @unpackExponent Format.binary64 b ≠ -1#11)
    (hnormal : @unpackExponent Format.binary64 b ≠ 0#11) :
    ∃ s m hm, UnpackedFloat.unpack Format.binary64 b =
      .finite s m ((@unpackExponent Format.binary64 b).toNat - 1075) hm ∧
        52 ≤ m.log2 := by
  have hle : 2 ^ 52 ≤ (1#1 ++ @unpackMantissa Format.binary64 b).toNat := by
    rw [BitVec.toNat_append]
    exact Nat.left_le_or
  have hpos : 0 < (1#1 ++ @unpackMantissa Format.binary64 b).toNat :=
    Nat.lt_of_lt_of_le (Nat.two_pow_pos 52) hle
  refine ⟨Sign.ofBitVec (@unpackSign Format.binary64 b), _, hpos, ?_,
    (Nat.le_log2 (Nat.ne_of_gt hpos)).mpr hle⟩
  unfold UnpackedFloat.unpack
  dsimp only
  rw [if_neg hfinite, if_neg hnormal]
  rfl

/-- A number of 53 bits keeps its exponent when it is packed. -/
theorem exists_unpack_pack_eq {s : Sign} {m : Nat} {e : Int} (hm : 0 < m) (hlog : m.log2 = 52)
    (hlow : -1074 ≤ e) (hhigh : e ≤ 971) :
    ∃ s' m' hm', (Float.Model.pack (.finite s m e hm)).unpack = .finite s' m' e hm' ∧
      52 ≤ m'.log2 := by
  have hfield : unpackExponent (UnpackedFloat.pack Format.binary64 (.finite s m e hm)) =
      BitVec.ofNat 11 (e + 1023 + 52).toNat := by
    rw [pack_finite hm hhigh, if_pos (by rw [hlog]), unpackExponent_packComponents]
  have htoNat := toNat_exponent hhigh
  have hne (k : Nat) (hk : k < 2048) (h : (e + 1023 + 52).toNat ≠ k) :
      unpackExponent (UnpackedFloat.pack Format.binary64 (.finite s m e hm)) ≠
        BitVec.ofNat 11 k := by
    rw [hfield]
    intro heq
    have := congrArg BitVec.toNat heq
    rw [htoNat, BitVec.toNat_ofNat, Nat.mod_eq_of_lt hk] at this
    exact h this
  obtain ⟨s', m', hm', hunpack, hlog'⟩ :=
    exists_unpack_eq (hne 2047 (by decide) (by omega)) (hne 0 (by decide) (by omega))
  have he : ((unpackExponent (UnpackedFloat.pack Format.binary64
      (.finite s m e hm))).toNat : Int) - 1075 = e := by
    rw [hfield]
    change ((BitVec.ofNat 11 (e + 1023 + 52).toNat).toNat : Int) - 1075 = e
    omega
  rw [he] at hunpack
  exact ⟨s', m', hm', hunpack, hlog'⟩

/-! ## Rounding -/

/-- The least exponent with which a mantissa has at most 53 bits, or that of subnormal numbers. -/
theorem targetExponent_eq (total : Int) :
    Format.binary64.targetExponent total = max (total - 53) (-1074) := rfl

theorem mantissa_shiftRight (em : ExtendedMantissa) (n : Nat) :
    (em >>> n).mantissa = em.mantissa / 2 ^ n := by
  change (n.repeat ExtendedMantissa.shiftRightOne em).mantissa = _
  induction n with
  | zero => simp [Nat.repeat]
  | succ n ih =>
    rw [Nat.repeat, ExtendedMantissa.shiftRightOne, ih, Nat.div_div_eq_div_mul, Nat.pow_succ]

theorem mantissa_ofMantissaAndAccuracy (m : Nat) (accuracy : Accuracy) :
    (ExtendedMantissa.ofMantissaAndAccuracy m accuracy).mantissa = m := by
  unfold ExtendedMantissa.ofMantissaAndAccuracy
  split <;> rfl

theorem roundedMantissa_le (em : ExtendedMantissa) : em.roundedMantissa ≤ em.mantissa + 1 := by
  unfold ExtendedMantissa.roundedMantissa
  unfold Accuracy.roundToNearestEven
  split <;> omega

theorem le_roundedMantissa (em : ExtendedMantissa) : em.mantissa ≤ em.roundedMantissa := by
  unfold ExtendedMantissa.roundedMantissa
  unfold Accuracy.roundToNearestEven
  split <;> omega

/-- A rounded mantissa has at most one bit more than the shifted one. -/
theorem log2_roundedMantissa_le (m : Nat) (e : Int) (accuracy : Accuracy) (target : Int) :
    (shiftToExponent m e accuracy target).1.roundedMantissa.log2 ≤
      m.log2 + 1 - (target - e).toNat := by
  rw [shiftToExponent]
  dsimp only
  generalize (target - e).toNat = k
  have hle := roundedMantissa_le (ExtendedMantissa.ofMantissaAndAccuracy m accuracy >>> k)
  rw [mantissa_shiftRight, mantissa_ofMantissaAndAccuracy] at hle
  generalize (ExtendedMantissa.ofMantissaAndAccuracy m accuracy >>> k).roundedMantissa = r at hle ⊢
  have hquotient : m / 2 ^ k < 2 ^ (m.log2 + 1 - k) := by
    refine Nat.div_lt_of_lt_mul (Nat.lt_of_lt_of_le Nat.lt_log2_self ?_)
    rw [← Nat.pow_add]
    exact Nat.pow_le_pow_right (by decide) (by omega)
  have hpos : 0 < 2 ^ (m.log2 + 1 - k) := Nat.two_pow_pos _
  have hr : r < 2 ^ (m.log2 + 1 - k + 1) := by
    rw [Nat.pow_succ]
    omega
  exact Nat.le_of_lt_succ (log2_lt_of_lt hr (Nat.succ_pos _))

theorem shiftToExponent_snd (m : Nat) (e : Int) (accuracy : Accuracy) (target : Int) :
    (shiftToExponent m e accuracy target).2 = max e target := by
  rw [shiftToExponent]
  dsimp only
  omega

/-- A number below `2^1023` with an exponent that packs is rounded to one that packs. -/
theorem packs_roundWithAccuracy {s : Sign} {m : Nat} {e : Int} {accuracy : Accuracy} (he : e ≤ 971)
    (htotal : totalExponent m e ≤ 1023) :
    Packs (roundWithAccuracy Format.binary64 s m e accuracy) := by
  have hlog := log2_roundedMantissa_le m e accuracy
    (Format.binary64.targetExponent (totalExponent m e))
  have hfirst := shiftToExponent_snd m e accuracy
    (Format.binary64.targetExponent (totalExponent m e))
  unfold roundWithAccuracy shiftToTargetExponent
  generalize shiftToExponent m e accuracy
    (Format.binary64.targetExponent (totalExponent m e)) = first at hlog hfirst ⊢
  obtain ⟨em, e₁⟩ := first
  dsimp only at hlog hfirst ⊢
  have hsecond := shiftToExponent_snd em.roundedMantissa e₁ .exact
    (Format.binary64.targetExponent (totalExponent em.roundedMantissa e₁))
  generalize shiftToExponent em.roundedMantissa e₁ .exact
    (Format.binary64.targetExponent (totalExponent em.roundedMantissa e₁)) = second at hsecond ⊢
  obtain ⟨em', e₂⟩ := second
  dsimp only at hsecond ⊢
  by_cases hzero : em'.mantissa = 0
  · rw [dif_pos hzero]
    trivial
  · rw [dif_neg hzero]
    change e₂ ≤ 971
    rw [targetExponent_eq] at hlog hfirst hsecond
    simp only [totalExponent] at hlog hfirst hsecond htotal
    omega

/-- A mantissa of more than 52 bits is cut to 53. -/
theorem cut_bounds {m : Nat} (hm : 52 ≤ m.log2) :
    2 ^ 52 ≤ m / 2 ^ (m.log2 - 52) ∧ m / 2 ^ (m.log2 - 52) < 2 ^ 53 := by
  constructor
  · rw [Nat.le_div_iff_mul_le (Nat.two_pow_pos _), ← Nat.pow_add, Nat.add_sub_cancel' hm]
    exact Nat.log2_self_le (by rintro rfl; simp at hm)
  · refine Nat.div_lt_of_lt_mul (Nat.lt_of_lt_of_le Nat.lt_log2_self ?_)
    rw [← Nat.pow_add]
    exact Nat.pow_le_pow_right (by decide) (by omega)

/-- A mantissa of 53 bits that was rounded up has 53 bits still, or is a power of two of 54. -/
theorem log2_cut {r : Nat} (hlow : 2 ^ 52 ≤ r) (hhigh : r ≤ 2 ^ 53) :
    (r.log2 = 52 ∨ r.log2 = 53) ∧ (r / 2 ^ (r.log2 - 52)).log2 = 52 := by
  rcases Nat.lt_or_eq_of_le hhigh with hlt | rfl
  · have hlog : r.log2 = 52 := (Nat.log2_eq_iff (by omega)).mpr ⟨hlow, hlt⟩
    rw [hlog]
    exact ⟨.inl rfl, by simpa using hlog⟩
  · exact ⟨.inr (by decide), by decide⟩

/-- A mantissa of more than 52 bits of a number that is not subnormal is rounded to 53 bits, and
the number grows by one bit at most. -/
theorem exists_roundWithAccuracy_eq (s : Sign) {m : Nat} {e : Int} (accuracy : Accuracy)
    (hm : 52 ≤ m.log2) (htotal : -1021 ≤ totalExponent m e) :
    ∃ m' e' hm', roundWithAccuracy Format.binary64 s m e accuracy = .finite s m' e' hm' ∧
      m'.log2 = 52 ∧ totalExponent m e - 53 ≤ e' ∧ e' ≤ totalExponent m e - 52 := by
  have hcut : (Format.binary64.targetExponent (totalExponent m e) - e).toNat = m.log2 - 52 := by
    rw [targetExponent_eq]
    simp only [totalExponent] at htotal ⊢
    omega
  unfold roundWithAccuracy shiftToTargetExponent
  rw [shiftToExponent, hcut]
  dsimp only
  have hmantissa : (ExtendedMantissa.ofMantissaAndAccuracy m accuracy >>> (m.log2 - 52)).mantissa =
      m / 2 ^ (m.log2 - 52) := by
    rw [mantissa_shiftRight, mantissa_ofMantissaAndAccuracy]
  have hexponent : e + ((m.log2 - 52 : Nat) : Int) = totalExponent m e - 53 := by
    rw [totalExponent]
    omega
  generalize ExtendedMantissa.ofMantissaAndAccuracy m accuracy >>> (m.log2 - 52) = em at hmantissa ⊢
  -- the mantissa that was cut to 53 bits may be rounded up to one more, and is cut again
  obtain ⟨hlow, hhigh⟩ := cut_bounds hm
  rw [← hmantissa] at hlow hhigh
  obtain ⟨hlog, hfinal⟩ := log2_cut (Nat.le_trans hlow (le_roundedMantissa em))
    (Nat.le_trans (roundedMantissa_le em) hhigh)
  rw [hexponent]
  generalize em.roundedMantissa = r at hlog hfinal ⊢
  have hcut' : (Format.binary64.targetExponent (totalExponent r (totalExponent m e - 53)) -
      (totalExponent m e - 53)).toNat = r.log2 - 52 := by
    rw [targetExponent_eq, totalExponent.eq_def r]
    omega
  rw [shiftToExponent, hcut']
  dsimp only
  rw [mantissa_shiftRight, mantissa_ofMantissaAndAccuracy]
  have hne : r / 2 ^ (r.log2 - 52) ≠ 0 := by
    intro heq
    rw [heq] at hfinal
    simp at hfinal
  rw [dif_neg hne]
  exact ⟨_, _, _, rfl, hfinal, by omega, by omega⟩

theorem isFinite_roundWithAccuracy (s : Sign) (m : Nat) (e : Int) (accuracy : Accuracy) :
    (roundWithAccuracy Format.binary64 s m e accuracy).isFinite = true := by
  obtain ⟨m', e', heq⟩ : ∃ m' e', roundWithAccuracy Format.binary64 s m e accuracy =
      if h : m' = 0 then .zero s else .finite s m' e' (Nat.pos_of_ne_zero h) := ⟨_, _, rfl⟩
  rw [heq]
  by_cases h : m' = 0
  · rw [dif_pos h]
    rfl
  · rw [dif_neg h]
    rfl

/-! ## Operations -/

/-- Whole numbers of 64 bits are rounded to numbers that pack. -/
theorem packs_round (s : Sign) {m : Nat} (h : m < 2 ^ 64) :
    Packs (UnpackedFloat.round Format.binary64 s m 0) := by
  unfold UnpackedFloat.round decreaseExponent
  dsimp only
  generalize (0 - Format.binary64.targetExponent (totalExponent m 0)).toNat = k
  refine packs_roundWithAccuracy (by omega) ?_
  have hlt : m <<< k < 2 ^ (64 + k) := by
    rw [Nat.shiftLeft_eq, Nat.pow_add]
    exact Nat.mul_lt_mul_of_pos_right h (Nat.two_pow_pos k)
  have hlog := log2_lt_of_lt hlt (by omega)
  rw [totalExponent]
  omega

theorem isFinite_toFloat (n : UInt64) : n.toFloat.isFinite = true := by
  change (Float.Model.pack
    (UnpackedFloat.normalize Format.binary64 (n.toNat : Int) 0 .positive)).isFinite = true
  refine isFinite_pack ?_
  have hlt : n.toNat < 2 ^ 64 := n.toNat_lt
  unfold UnpackedFloat.normalize
  split
  · exact packs_round .negative (by omega)
  · trivial
  · exact packs_round .positive (by omega)

theorem isFinite_neg {x : Float} (h : x.isFinite = true) : (-x).isFinite = true := by
  change (Float.Model.pack x.toModel.unpack.neg).isFinite = true
  refine isFinite_pack ?_
  have hpacks := (packs_unpack (x := x.toModel) h).1
  cases hx : x.toModel.unpack with
  | zero s => trivial
  | finite s m e hm =>
    rw [hx] at hpacks
    exact hpacks
  | infinity s =>
    rw [hx] at hpacks
    exact hpacks.elim
  | notANumber =>
    rw [hx] at hpacks
    exact hpacks.elim

/-- What is finite unpacked is finite or infinite when packed. -/
theorem isFinite_or_isInf_pack {f : UnpackedFloat} (h : f.isFinite = true) :
    (Float.Model.pack f).isFinite = true ∨ (Float.Model.pack f).isInf = true := by
  cases f with
  | zero s => exact .inl (isFinite_pack (f := .zero s) trivial)
  | finite s m e hm =>
    by_cases he : e ≤ 971
    · exact .inl (isFinite_pack (f := .finite s m e hm) he)
    · have hlarge : 2 ^ 11 ≤ (e + 1023 + 52).toNat + 1 := by omega
      have hpack : UnpackedFloat.pack Format.binary64 (.finite s m e hm) =
          packedInfinity Format.binary64 s := if_pos hlarge
      refine .inr ?_
      change (UnpackedFloat.unpack Format.binary64
        (UnpackedFloat.pack Format.binary64 _)).isInf = true
      rw [hpack]
      cases s <;> rfl
  | infinity s => cases h
  | notANumber => cases h

theorem isFinite_unpacked_mul {f g : UnpackedFloat} (hf : f.isFinite = true)
    (hg : g.isFinite = true) : (UnpackedFloat.mul Format.binary64 f g).isFinite = true := by
  cases f with
  | infinity s => cases hf
  | notANumber => cases hf
  | zero s =>
    cases g with
    | zero _ | finite _ _ _ _ => rfl
    | infinity _ | notANumber => cases hg
  | finite s m e hm =>
    cases g with
    | zero _ => rfl
    | finite _ _ _ _ => exact isFinite_roundWithAccuracy _ _ _ _
    | infinity _ | notANumber => cases hg

/-- A product of finite doubles is finite unless it is infinite. -/
theorem isFinite_mul {x y : Float} (hx : x.isFinite = true) (hy : y.isFinite = true)
    (h : (x * y).isInf = false) : (x * y).isFinite = true := by
  rcases isFinite_or_isInf_pack (isFinite_unpacked_mul (f := x.toModel.unpack)
    (g := y.toModel.unpack) hx hy) with hfinite | hinf
  · exact hfinite
  · change (x * y).isInf = true at hinf
    rw [h] at hinf
    cases hinf

/-- The quotient of two mantissas has at most as many bits more than the difference. -/
theorem log2_div_le (m n k : Nat) (hn : n ≠ 0) :
    ((m <<< k) / n).log2 ≤ m.log2 + k - n.log2 := by
  have hshifted : m <<< k < 2 ^ (m.log2 + 1 + k) := by
    rw [Nat.shiftLeft_eq, Nat.pow_add]
    exact Nat.mul_lt_mul_of_pos_right Nat.lt_log2_self (Nat.two_pow_pos k)
  have hquotient : (m <<< k) / n < 2 ^ (m.log2 + 1 + k - n.log2) := by
    refine Nat.div_lt_of_lt_mul (Nat.lt_of_lt_of_le hshifted ?_)
    calc 2 ^ (m.log2 + 1 + k)
        ≤ 2 ^ (n.log2 + (m.log2 + 1 + k - n.log2)) := Nat.pow_le_pow_right (by decide) (by omega)
      _ = 2 ^ n.log2 * 2 ^ (m.log2 + 1 + k - n.log2) := Nat.pow_add ..
      _ ≤ n * 2 ^ (m.log2 + 1 + k - n.log2) := Nat.mul_le_mul_right _ (Nat.log2_self_le hn)
  by_cases hbits : m.log2 + 1 + k - n.log2 = 0
  · rw [hbits, Nat.pow_zero, Nat.lt_one_iff] at hquotient
    rw [hquotient, Nat.log2_zero]
    exact Nat.zero_le _
  · have hlog := log2_lt_of_lt hquotient (Nat.pos_of_ne_zero hbits)
    omega

/-- A number below `2^1024` divided by one that is at least eight. -/
theorem packs_div {f g : UnpackedFloat}
    (hf : Packs f ∧ ∀ s m e hm, f = .finite s m e hm → totalExponent m e ≤ 1024)
    (hg : ∃ s m e hm, g = .finite s m e hm ∧ 4 ≤ totalExponent m e) :
    Packs (UnpackedFloat.div Format.binary64 f g) := by
  obtain ⟨s', m', e', hm', rfl, hlarge⟩ := hg
  obtain ⟨hpacks, htotal⟩ := hf
  cases f with
  | infinity s => exact hpacks.elim
  | notANumber => exact hpacks.elim
  | zero s => trivial
  | finite s m e hm =>
    have hsmall := htotal s m e hm rfl
    have he : e ≤ 971 := hpacks
    unfold UnpackedFloat.div divCore
    dsimp only
    generalize hexponent : min (e - e')
      (Format.binary64.targetExponent (totalExponent m e - totalExponent m' e')) = target
    have hlog := log2_div_le m m' (e - e' - target).toNat (Nat.ne_of_gt hm')
    rw [targetExponent_eq] at hexponent
    refine packs_roundWithAccuracy (by omega) ?_
    simp only [totalExponent] at hsmall hlarge hexponent hlog ⊢
    omega

/-- The double is a number with a magnitude of at least eight. -/
def isLarge (x : Float) : Bool :=
  match x.toModel.unpack with
  | .finite _ m e _ => 4 ≤ totalExponent m e
  | _ => false

theorem isFinite_of_isLarge {x : Float} (h : isLarge x = true) : x.isFinite = true := by
  change x.toModel.unpack.isFinite = true
  unfold isLarge at h
  split at h
  · rename_i heq
    rw [heq]
    rfl
  · cases h

/-- A finite double divided by one that is at least eight is finite. -/
theorem isFinite_div {x y : Float} (hx : x.isFinite = true) (hy : isLarge y = true) :
    (x / y).isFinite = true := by
  refine isFinite_pack (packs_div (packs_unpack hx) ?_)
  unfold isLarge at hy
  generalize y.toModel.unpack = f at hy ⊢
  cases f with
  | finite s m e hm => exact ⟨s, m, e, hm, rfl, of_decide_eq_true hy⟩
  | zero _ | infinity _ | notANumber => cases hy

/-! ## Powers of ten -/

theorem isLarge_pack_roundWithAccuracy (s : Sign) {m : Nat} {e : Int} (accuracy : Accuracy)
    (hm : 52 ≤ m.log2) (hlow : 4 ≤ totalExponent m e) (hhigh : totalExponent m e ≤ 1023) :
    isLarge ⟨Float.Model.pack (roundWithAccuracy Format.binary64 s m e accuracy)⟩ = true := by
  obtain ⟨m', e', hm', hround, hlog, he⟩ :=
    exists_roundWithAccuracy_eq s (e := e) accuracy hm (by omega)
  obtain ⟨s'', m'', hm'', hunpack, hlog'⟩ :=
    exists_unpack_pack_eq (s := s) (e := e') hm' hlog (by omega) (by omega)
  unfold isLarge
  rw [hround]
  dsimp only
  rw [hunpack, decide_eq_true_eq, totalExponent]
  omega

/-- A power of ten that is not exact is rounded. -/
theorem tenTo_eq {n : Nat} (hsmall : 22 < n) (hle : n ≤ 308) :
    tenTo n = ⟨Float.Model.pack
      (roundWithAccuracy Format.binary64 .positive (2 ^ 53 * 10 ^ n) (-53) .exact)⟩ := by
  have hexponent : ¬ (n : Int) > 2 ^ Format.binary64.exponentBits := by
    change ¬ (n : Int) > 2 ^ 11
    omega
  have hnegative : ¬ (n : Int) < -(2 ^ Format.binary64.exponentBits + ((1 : Nat).log2 : Int)) := by
    change ¬ (n : Int) < -(2 ^ 11 + 0)
    omega
  unfold tenTo Float.ofScientific
  rw [dif_neg (by omega)]
  change (⟨Float.Model.pack (UnpackedFloat.ofScientific Format.binary64 1 n)⟩ : Float) = _
  unfold UnpackedFloat.ofScientific
  rw [dif_neg Nat.one_ne_zero, if_neg hexponent, if_neg hnegative, if_pos (Int.natCast_nonneg n)]
  rfl

/-- The powers of ten up to the greatest that is a double are large. -/
theorem isLarge_tenTo {n : Nat} (hpos : 0 < n) (hle : n ≤ 308) : isLarge (tenTo n) = true := by
  by_cases hsmall : n ≤ 22
  · have hchecked : ∀ n < 23, 0 < n → isLarge (tenTo n) = true := by decide +kernel
    exact hchecked n (by omega) hpos
  by_cases hlast : n = 308
  · subst hlast
    decide +kernel
  have hlow : 2 ^ 4 ≤ 10 ^ n := by
    calc 2 ^ 4 ≤ 10 ^ 23 := by decide
      _ ≤ 10 ^ n := Nat.pow_le_pow_right (by decide) (by omega)
  have hhigh : 10 ^ n < 2 ^ 1020 := by
    calc 10 ^ n ≤ 10 ^ 307 := Nat.pow_le_pow_right (by decide) (by omega)
      _ < 2 ^ 1020 := by decide +kernel
  have hlog : 4 ≤ (10 ^ n).log2 ∧ (10 ^ n).log2 < 1020 :=
    ⟨(Nat.le_log2 (by omega)).mpr hlow, log2_lt_of_lt hhigh (by decide)⟩
  clear hhigh
  have hshifted : (2 ^ 53 * 10 ^ n).log2 = 53 + (10 ^ n).log2 := by
    refine (Nat.log2_eq_iff (by omega)).mpr ?_
    rw [Nat.add_assoc, Nat.pow_add, Nat.pow_add 2 53]
    exact ⟨Nat.mul_le_mul_left _ (Nat.log2_self_le (by omega)),
      Nat.mul_lt_mul_of_pos_left Nat.lt_log2_self (by decide)⟩
  have htotal : totalExponent (2 ^ 53 * 10 ^ n) (-53) = (10 ^ n).log2 + 1 := by
    rw [totalExponent, hshifted]
    omega
  rw [tenTo_eq (by omega) hle]
  exact isLarge_pack_roundWithAccuracy _ _ (by omega) (by omega) (by omega)

/-- A finite double divided by a power of ten is finite. -/
theorem isFinite_divideByTens {x : Float} (hx : x.isFinite = true) {n : Nat} (hpos : 0 < n) :
    (divideByTens x n).isFinite = true := by
  fun_induction divideByTens x n with
  | case1 x n hzero => exact hx
  | case2 x n hzero hle => exact isFinite_div hx (isLarge_tenTo hpos hle)
  | case3 x n hzero hle ih =>
    exact ih (isFinite_div hx (isLarge_tenTo (by decide) (by decide))) (by omega)

/-- A scaled number is finite. -/
theorem isFinite_of_scale? {significand : Nat} {exponent : Int} {x : Float}
    (h : scale? significand exponent = some x) : x.isFinite = true := by
  have hsignificand := isFinite_toFloat (UInt64.ofNat significand)
  unfold scale? at h
  dsimp only at h
  split at h
  · cases h
    exact isFinite_divideByTens hsignificand (by omega)
  · split at h
    · split at h
      · cases h
      · rename_i hinf
        cases h
        refine isFinite_mul hsignificand ?_ (Bool.eq_false_iff.mpr hinf)
        by_cases hzero : exponent.toNat = 0
        · rw [hzero]
          rfl
        · exact isFinite_of_isLarge (isLarge_tenTo (by omega) (by omega))
    · split at h
      · cases h
        exact hsignificand
      · cases h

end DeferredStyle.Doubles
