import Demangle.Proofs.Punycode
import Demangle.Proofs.Punycode.Insertion
import Mathlib.Algebra.Group.Nat.Defs
import Mathlib.Data.List.InsertIdx

/-!
# Decoding in machine words

The decoder with every operation carried out on words of 32 bits. Where the algorithm checks for overflow, a
sum or a product that does not fit makes the text malformed. All other operations are not checked: a sum
that does not fit, a negative difference, a divisor 0 or an insertion behind the end of the list stops the
run, each in its own way (`Stop`), and so do a code point below 0x80 and a loop that has not ended after its
rounds.

None of this happens to a text that is shorter than the largest word. The run in machine words refuses what
`decodePoints` refuses and otherwise gives the same code points:

    Machine.decodePoints s = (Punycode.decodePoints s as words)        (decodePoints_safe)
-/

namespace Demangle.Punycode.Machine

/-! ## Operations -/

/-- The ways in which a run stops without a result. Only the first one belongs to the algorithm. -/
inductive Stop where
  | malformed
  | overflow
  | underflow
  | zeroDivisor
  | outOfRange
  | basicPoint
  | endless
  deriving DecidableEq, Repr

/-- A computation on machine words. -/
abbrev Run := Except Stop

/-- A number as a word, if it fits. -/
def fit (stop : Stop) (n : Nat) : Run UInt32 :=
  if n < UInt32.size then .ok (.ofNat n) else .error stop

def add (a b : UInt32) : Run UInt32 := fit .overflow (a.toNat + b.toNat)

def mul (a b : UInt32) : Run UInt32 := fit .overflow (a.toNat * b.toNat)

/-- A sum that the algorithm checks. -/
def checkedAdd (a b : UInt32) : Run UInt32 := fit .malformed (a.toNat + b.toNat)

/-- A product that the algorithm checks. -/
def checkedMul (a b : UInt32) : Run UInt32 := fit .malformed (a.toNat * b.toNat)

def sub (a b : UInt32) : Run UInt32 :=
  if b ≤ a then .ok (a - b) else .error .underflow

def quotient (a b : UInt32) : Run UInt32 :=
  if b = 0 then .error .zeroDivisor else .ok (a / b)

def remainder (a b : UInt32) : Run UInt32 :=
  if b = 0 then .error .zeroDivisor else .ok (a % b)

/-! ## Algorithm -/

def base : UInt32 := 36
def tmin : UInt32 := 1
def tmax : UInt32 := 26
def skew : UInt32 := 38
def damp : UInt32 := 700

def digitValue (c : Char) : Run UInt32 :=
  if 'a' ≤ c ∧ c ≤ 'z' then sub c.val 'a'.val
  else if 'A' ≤ c ∧ c ≤ 'J' then do add (← sub c.val 'A'.val) 26
  else .error .malformed

def threshold (bias k : UInt32) : Run UInt32 :=
  if k ≤ bias then .ok tmin
  else do
    if (← add bias tmax) ≤ k then return tmax
    sub k bias

/-- Up to here a difference is small. -/
def limit : Run UInt32 := do
  quotient (← mul (← sub base tmin) tmax) 2

/-- Makes a difference small. The first argument is the number of divisions allowed. -/
def adaptLoop : Nat → (delta k : UInt32) → Run (UInt32 × UInt32)
  | 0, delta, k => do
    if delta ≤ (← limit) then return (delta, k)
    throw .endless
  | rounds + 1, delta, k => do
    if delta ≤ (← limit) then return (delta, k)
    adaptLoop rounds (← quotient delta (← sub base tmin)) (← add k base)

/-- Five divisions make every word small. -/
def adapt (delta count : UInt32) (first : Bool) : Run UInt32 := do
  let delta ← quotient delta (if first then damp else 2)
  let delta ← add delta (← quotient delta count)
  let (delta, k) ← adaptLoop 5 delta 0
  let scaled ← mul (← add (← sub base tmin) 1) delta
  add k (← quotient scaled (← add delta skew))

def readNumber (bias : UInt32) : (i w k : UInt32) → List Char → Run (UInt32 × List Char)
  | _, _, _, [] => .error .malformed
  | i, w, k, c :: cs => do
    let digit ← digitValue c
    let i ← checkedAdd i (← checkedMul digit w)
    let t ← threshold bias k
    if digit < t then return (i, cs)
    let w ← checkedMul w (← sub base t)
    readNumber bias i w (← add k base) cs

/-- Where decoding stands. -/
structure State where
  points : List UInt32
  n : UInt32 := 128
  i : UInt32 := 0
  bias : UInt32 := 72

/-- Inserts a code point after the state's index has grown to `i`. The number of code points is cut to a
word. -/
def State.insert (st : State) (i : UInt32) : Run State := do
  let count ← add (.ofNat st.points.length) 1
  let bias ← adapt (← sub i st.i) count (st.i == 0)
  let n ← checkedAdd st.n (← quotient i count)
  let i ← remainder i count
  if n < 0x80 then throw .basicPoint
  if st.points.length < i.toNat then throw .outOfRange
  return { points := st.points.insertIdx i.toNat n, n := n, i := ← add i 1, bias := bias }

/-- Performs the insertions that the digits spell. The first argument is the number of insertions allowed. -/
def insertions : Nat → State → List Char → Run (List UInt32)
  | _, st, [] => .ok st.points
  | 0, _, _ :: _ => .error .endless
  | rounds + 1, st, cs => do
    let (i, cs) ← readNumber st.bias st.i 1 base cs
    insertions rounds (← st.insert i) cs

/-- The code points that a Punycode text spells. -/
def decodePoints (s : String) : Run (List UInt32) :=
  let (literal, digits) := split s.toList
  if literal.all (·.toNat < 0x80) then
    insertions digits.length { points := literal.map Char.val } digits
  else .error .malformed

/-! ## Operations on words that fit -/

theorem ok_bind {α β : Type} (a : α) (f : α → Run β) : (Except.ok a : Run α) >>= f = f a := rfl

theorem error_bind {α β : Type} (stop : Stop) (f : α → Run β) :
    (Except.error stop : Run α) >>= f = .error stop := rfl

section Words

variable {a b : Nat}

theorem fit_ok {stop : Stop} (h : a < UInt32.size) : fit stop a = .ok (.ofNat a) :=
  if_pos h

theorem fit_error {stop : Stop} (h : ¬a < UInt32.size) : fit stop a = .error stop :=
  if_neg h

theorem add_ofNat (h : a + b < UInt32.size) :
    add (.ofNat a) (.ofNat b) = .ok (.ofNat (a + b)) := by
  rw [add, UInt32.toNat_ofNat_of_lt' (by omega), UInt32.toNat_ofNat_of_lt' (by omega), fit_ok h]

theorem mul_ofNat (ha : a < UInt32.size) (hb : b < UInt32.size) (h : a * b < UInt32.size) :
    mul (.ofNat a) (.ofNat b) = .ok (.ofNat (a * b)) := by
  rw [mul, UInt32.toNat_ofNat_of_lt' ha, UInt32.toNat_ofNat_of_lt' hb, fit_ok h]

theorem checkedAdd_ofNat (ha : a < UInt32.size) (hb : b < UInt32.size) :
    checkedAdd (.ofNat a) (.ofNat b) = fit .malformed (a + b) := by
  rw [checkedAdd, UInt32.toNat_ofNat_of_lt' ha, UInt32.toNat_ofNat_of_lt' hb]

theorem checkedMul_ofNat (ha : a < UInt32.size) (hb : b < UInt32.size) :
    checkedMul (.ofNat a) (.ofNat b) = fit .malformed (a * b) := by
  rw [checkedMul, UInt32.toNat_ofNat_of_lt' ha, UInt32.toNat_ofNat_of_lt' hb]

theorem sub_ofNat (ha : a < UInt32.size) (h : b ≤ a) :
    sub (.ofNat a) (.ofNat b) = .ok (.ofNat (a - b)) := by
  rw [sub, if_pos ((UInt32.ofNat_le_iff_le (by omega) ha).mpr h), UInt32.ofNat_sub h]

theorem ofNat_ne_zero (h : a < UInt32.size) (hpos : 0 < a) : UInt32.ofNat a ≠ 0 := by
  intro heq
  have := congrArg UInt32.toNat heq
  rw [UInt32.toNat_ofNat_of_lt' h, UInt32.toNat_zero] at this
  omega

theorem beq_zero_ofNat (h : a < UInt32.size) : (UInt32.ofNat a == 0) = (a == 0) := by
  rcases Nat.eq_zero_or_pos a with rfl | hpos
  · rfl
  · rw [beq_eq_false_iff_ne.mpr (ofNat_ne_zero h hpos), beq_eq_false_iff_ne.mpr (by omega)]

theorem quotient_ofNat (ha : a < UInt32.size) (hb : b < UInt32.size) (hpos : 0 < b) :
    quotient (.ofNat a) (.ofNat b) = .ok (.ofNat (a / b)) := by
  rw [quotient, if_neg (ofNat_ne_zero hb hpos), UInt32.ofNat_div ha hb]

theorem remainder_ofNat (ha : a < UInt32.size) (hb : b < UInt32.size) (hpos : 0 < b) :
    remainder (.ofNat a) (.ofNat b) = .ok (.ofNat (a % b)) := by
  rw [remainder, if_neg (ofNat_ne_zero hb hpos), UInt32.ofNat_mod ha hb]

end Words

/-- What the algorithm gives, in machine words. -/
def outcome {α β : Type} (f : α → β) (r : Option α) : Run β :=
  r.elim (.error .malformed) fun a => .ok (f a)

/-! ## Numbers -/

theorem digitValue_eq (c : Char) : digitValue c = outcome UInt32.ofNat (digitValue? c) := by
  have hc : c.val = UInt32.ofNat c.toNat := UInt32.ofNat_toNat.symm
  have hlt : c.toNat < UInt32.size := c.val.toNat_lt
  have hsize : UInt32.size = 4294967296 := rfl
  unfold digitValue digitValue?
  split
  · next h =>
    rw [hc]
    exact sub_ofNat hlt h.1
  · split
    · next h =>
      have hhigh : c.toNat ≤ 74 := h.2
      have hsub : sub c.val 'A'.val = .ok (.ofNat (c.toNat - 'A'.toNat)) := by
        rw [hc]
        exact sub_ofNat hlt h.1
      rw [hsub, ok_bind]
      exact add_ofNat (b := 26) (by omega)
    · rfl

theorem threshold_ofNat {bias k : Nat} (hb : bias + 26 < UInt32.size) (hk : k < UInt32.size) :
    threshold (.ofNat bias) (.ofNat k) = .ok (.ofNat (Punycode.threshold bias k)) := by
  have hsum : add (.ofNat bias) tmax = .ok (.ofNat (bias + 26)) := add_ofNat hb
  unfold threshold Punycode.threshold
  rw [hsum, ok_bind]
  by_cases hlow : k ≤ bias
  · rw [if_pos hlow, if_pos ((UInt32.ofNat_le_iff_le hk (by omega)).mpr hlow)]
    rfl
  rw [if_neg hlow, if_neg (mt (UInt32.ofNat_le_iff_le hk (by omega)).mp hlow)]
  by_cases hhigh : bias + 26 ≤ k
  · rw [if_pos hhigh, if_pos ((UInt32.ofNat_le_iff_le hb hk).mpr hhigh)]
    rfl
  · rw [if_neg hhigh, if_neg (mt (UInt32.ofNat_le_iff_le hb hk).mp hhigh)]
    exact sub_ofNat hk (by omega)

/-- Numbers are read as in unbounded arithmetic. The weight is at least tenfold after each digit, so there is
no room for more than ten digits and `k` stays small. -/
theorem readNumber_ofNat {bias : Nat} (hb : bias + 26 < UInt32.size) (cs : List Char) :
    ∀ {i w j : Nat}, i < UInt32.size → w < UInt32.size → 10 ^ j ≤ w →
      readNumber (.ofNat bias) (.ofNat i) (.ofNat w) (.ofNat (36 * (j + 1))) cs =
        outcome (fun r => (UInt32.ofNat r.1, r.2))
          (Punycode.readNumber bias i w (36 * (j + 1)) cs) := by
  have hsize : UInt32.size = 4294967296 := rfl
  have hword : wordSize = UInt32.size := rfl
  have hbase : Punycode.base = 36 := rfl
  induction cs with
  | nil => exact fun _ _ _ => rfl
  | cons c cs ih =>
    intro i w j hi hw hj
    have hj' : j < 10 := by
      by_contra hge
      have hpow : 10 ^ 10 ≤ 10 ^ j := Nat.pow_le_pow_right (by decide) (Nat.le_of_not_lt hge)
      omega
    rw [readNumber, Punycode.readNumber, digitValue_eq]
    cases hd : digitValue? c with
    | none => rfl
    | some d =>
    have hdigit : d < 36 := (digitChar_of_digitValue? hd).1
    have hd' : d < UInt32.size := by omega
    show (do
      let i ← checkedAdd (.ofNat i) (← checkedMul (.ofNat d) (.ofNat w))
      let t ← threshold (.ofNat bias) (.ofNat (36 * (j + 1)))
      if UInt32.ofNat d < t then return (i, cs)
      let w ← checkedMul (.ofNat w) (← sub base t)
      readNumber (.ofNat bias) i w (← add (.ofNat (36 * (j + 1))) base) cs) = _
    have hpos := threshold_pos bias (36 * (j + 1))
    have hle := threshold_le bias (36 * (j + 1))
    rw [checkedMul_ofNat hd' hw, threshold_ofNat hb (by omega), hword, hbase]
    generalize Punycode.threshold bias (36 * (j + 1)) = t at hpos hle ⊢
    by_cases hfits : i + d * w < UInt32.size
    · have hproduct : d * w < UInt32.size := by omega
      rw [fit_ok hproduct, ok_bind, checkedAdd_ofNat hi hproduct, fit_ok hfits, ok_bind, ok_bind]
      dsimp only
      rw [if_pos hfits]
      by_cases hlast : d < t
      · rw [if_pos hlast, if_pos ((UInt32.ofNat_lt_iff_lt hd' (by omega)).mpr hlast)]
        rfl
      · have hsub : sub base (.ofNat t) = .ok (.ofNat (36 - t)) :=
          sub_ofNat (a := 36) (by omega) (by omega)
        rw [if_neg hlast, if_neg (mt (UInt32.ofNat_lt_iff_lt hd' (by omega)).mp hlast), hsub,
          ok_bind, checkedMul_ofNat hw (by omega)]
        by_cases hgrown : w * (36 - t) < UInt32.size
        · have hk : add (.ofNat (36 * (j + 1))) base = .ok (.ofNat (36 * (j + 1 + 1))) :=
            add_ofNat (b := 36) (by omega)
          have hweight : 10 ^ (j + 1) ≤ w * (36 - t) := by
            rw [Nat.pow_succ]
            exact Nat.mul_le_mul hj (by omega)
          rw [fit_ok hgrown, ok_bind, hk, ok_bind, ih hfits hgrown hweight, if_pos hgrown]
          rfl
        · rw [fit_error hgrown, error_bind, if_neg hgrown]
          rfl
    · dsimp only
      rw [if_neg hfits]
      by_cases hproduct : d * w < UInt32.size
      · rw [fit_ok hproduct, ok_bind, checkedAdd_ofNat hi hproduct, fit_error hfits, error_bind]
        rfl
      · rw [fit_error hproduct, error_bind]
        rfl

/-! ## The bias -/

theorem limit_eq : limit = .ok (.ofNat 455) := rfl

/-- A difference is made small as in unbounded arithmetic, by as many divisions as its size needs. -/
theorem adaptLoop_ofNat (rounds : Nat) : ∀ fuel delta k : Nat, delta ≤ 455 * 35 ^ rounds →
    delta ≤ fuel → delta < UInt32.size → k + 36 * rounds < UInt32.size →
      adaptLoop rounds (.ofNat delta) (.ofNat k) =
          .ok (.ofNat (Punycode.adaptLoop fuel delta k).1, .ofNat (Punycode.adaptLoop fuel delta k).2) ∧
        (Punycode.adaptLoop fuel delta k).1 ≤ 455 ∧
        (Punycode.adaptLoop fuel delta k).2 ≤ k + 36 * rounds := by
  have hsize : UInt32.size = 4294967296 := rfl
  have hdone : ∀ {fuel delta k : Nat}, delta ≤ 455 → Punycode.adaptLoop fuel delta k = (delta, k) := by
    intro fuel delta k h
    cases fuel with
    | zero => rfl
    | succ fuel => exact if_neg (Nat.not_lt_of_le h)
  induction rounds with
  | zero =>
    intro fuel delta k hdelta _ hfits _
    rw [Nat.pow_zero, Nat.mul_one] at hdelta
    rw [hdone hdelta, adaptLoop, limit_eq, ok_bind,
      if_pos ((UInt32.ofNat_le_iff_le hfits (by omega)).mpr hdelta)]
    exact ⟨rfl, hdelta, Nat.le_refl _⟩
  | succ rounds ih =>
    intro fuel delta k hdelta hfuel hfits hk
    rw [adaptLoop, limit_eq, ok_bind]
    by_cases hsmall : delta ≤ 455
    · rw [hdone hsmall, if_pos ((UInt32.ofNat_le_iff_le hfits (by omega)).mpr hsmall)]
      exact ⟨rfl, hsmall, by omega⟩
    · obtain ⟨fuel, rfl⟩ : ∃ m, fuel = m + 1 := ⟨fuel - 1, by omega⟩
      have hstep : Punycode.adaptLoop (fuel + 1) delta k =
          Punycode.adaptLoop fuel (delta / 35) (k + 36) := if_pos (Nat.lt_of_not_le hsmall)
      have hbase : sub base tmin = .ok (.ofNat 35) := rfl
      have hadd : add (.ofNat k) base = .ok (.ofNat (k + 36)) := add_ofNat (b := 36) (by omega)
      have hless : delta / 35 < delta := Nat.div_lt_self (by omega) (by decide)
      have hdivided : delta / 35 ≤ 455 * 35 ^ rounds := by
        refine Nat.div_le_of_le_mul ?_
        rw [Nat.mul_left_comm, ← Nat.pow_succ']
        exact hdelta
      rw [hstep, if_neg (mt (UInt32.ofNat_le_iff_le hfits (by omega)).mp hsmall), hbase, ok_bind,
        quotient_ofNat hfits (by omega) (by omega), ok_bind, hadd, ok_bind]
      obtain ⟨heq, hvalue, hplace⟩ := ih fuel (delta / 35) (k + 36) hdivided
        (by omega) (by omega) (by omega)
      exact ⟨heq, hvalue, by omega⟩

/-- The bias is adapted as in unbounded arithmetic, and stays small. -/
theorem adapt_ofNat {delta count : Nat} (first : Bool) (hdelta : delta < UInt32.size)
    (hcount : count < UInt32.size) (hpos : 0 < count) :
    adapt (.ofNat delta) (.ofNat count) first = .ok (.ofNat (Punycode.adapt delta count first)) ∧
      Punycode.adapt delta count first ≤ 216 := by
  have hsize : UInt32.size = 4294967296 := rfl
  obtain ⟨start, hstart, hpart, hless⟩ : ∃ start, start = (if first then delta / 700 else delta / 2) ∧
      quotient (.ofNat delta) (if first then damp else 2) = .ok (.ofNat start) ∧
      start * 2 ≤ delta := by
    cases first with
    | true => exact ⟨delta / 700, rfl, quotient_ofNat (b := 700) hdelta (by decide) (by decide), by omega⟩
    | false => exact ⟨delta / 2, rfl, quotient_ofNat (b := 2) hdelta (by decide) (by decide), by omega⟩
  have hshare : start / count ≤ start := Nat.div_le_self _ _
  have hbound : start + start / count ≤ 455 * 35 ^ 5 := by
    have hpow : 455 * 35 ^ 5 = 23897453125 := rfl
    omega
  obtain ⟨hloop, hsmall, hk⟩ := adaptLoop_ofNat 5 (start + start / count) _ 0 hbound
    (Nat.le_refl _) (by omega) (by omega)
  unfold adapt Punycode.adapt
  simp only [← hstart]
  generalize Punycode.adaptLoop (start + start / count) (start + start / count) 0 = r at *
  obtain ⟨small, k⟩ := r
  dsimp only at hloop hsmall hk ⊢
  have hscale : add (.ofNat 35) 1 = .ok (.ofNat 36) := rfl
  have hbase : sub base tmin = .ok (.ofNat 35) := rfl
  have hskew : add (.ofNat small) skew = .ok (.ofNat (small + 38)) := add_ofNat (b := 38) (by omega)
  have hzero : (0 : UInt32) = .ofNat 0 := rfl
  have hshrunk : Punycode.base * small / (small + 38) ≤ 36 := by
    refine Nat.div_le_of_le_mul ?_
    rw [Nat.mul_comm]
    exact Nat.mul_le_mul (Nat.le_add_right _ _) (Nat.le_refl _)
  rw [hpart, ok_bind, quotient_ofNat (by omega) hcount hpos, ok_bind, add_ofNat (by omega), ok_bind,
    hzero, hloop, ok_bind, hbase, ok_bind, hscale, ok_bind,
    mul_ofNat (by decide) (by omega) (by omega), ok_bind, hskew, ok_bind,
    quotient_ofNat (by omega) (by omega) (by omega), ok_bind]
  have hb : Punycode.base = 36 := rfl
  rw [hb] at hshrunk ⊢
  exact ⟨add_ofNat (by omega), by omega⟩

/-! ## Insertions -/

/-- A state in machine words. -/
def word (st : Punycode.State) : State where
  points := st.points.map .ofNat
  n := .ofNat st.n
  i := .ofNat st.i
  bias := .ofNat st.bias

/-- What all states of a run have in common. -/
structure Fits (st : Punycode.State) : Prop where
  low : 0x80 ≤ st.n
  high : st.n < UInt32.size
  place : st.i ≤ st.points.length
  bias : st.bias ≤ 216
  points : ∀ p ∈ st.points, p < UInt32.size

/-- An insertion is made as in unbounded arithmetic, as long as the list is shorter than the largest word. -/
theorem insert_word {st : Punycode.State} (h : Fits st) {i : Nat} (hi : st.i ≤ i)
    (hfits : i < UInt32.size) (hlength : st.points.length + 1 < UInt32.size) :
    (word st).insert (.ofNat i) = outcome word (st.insert i) ∧ ∀ st' ∈ st.insert i, Fits st' := by
  have hsize : UInt32.size = 4294967296 := rfl
  have hlow : 0x80 ≤ st.n + i / (st.points.length + 1) := Nat.le_trans h.low (Nat.le_add_right _ _)
  have hcount : add (.ofNat (word st).points.length) 1 = .ok (.ofNat (st.points.length + 1)) := by
    rw [word, List.length_map]
    exact add_ofNat (b := 1) hlength
  have hdelta : sub (.ofNat i) (word st).i = .ok (.ofNat (i - st.i)) := sub_ofNat hfits hi
  have hfirst : ((word st).i == 0) = (st.i == 0) := beq_zero_ofNat (by omega)
  obtain ⟨hadapt, hbias⟩ := adapt_ofNat (st.i == 0) (show i - st.i < UInt32.size by omega) hlength
    (Nat.succ_pos _)
  have hquotient := quotient_ofNat hfits hlength (Nat.succ_pos _)
  have hdiv : i / (st.points.length + 1) < UInt32.size :=
    Nat.lt_of_le_of_lt (Nat.div_le_self _ _) hfits
  have hsum : checkedAdd (word st).n (.ofNat (i / (st.points.length + 1))) =
      fit .malformed (st.n + i / (st.points.length + 1)) := checkedAdd_ofNat h.high hdiv
  have hmod : i % (st.points.length + 1) ≤ st.points.length :=
    Nat.le_of_lt_succ (Nat.mod_lt _ (Nat.succ_pos _))
  unfold State.insert Punycode.State.insert
  rw [hcount, ok_bind, hdelta, ok_bind, hfirst, hadapt, ok_bind, hquotient, ok_bind, hsum,
    Punycode.State.count_eq hlength]
  dsimp only
  by_cases hn : st.n + i / (st.points.length + 1) < UInt32.size
  · have hhigh : ¬UInt32.ofNat (st.n + i / (st.points.length + 1)) < 0x80 :=
      mt (UInt32.ofNat_lt_iff_lt (b := 0x80) hn (by decide)).mp (by omega)
    have hindex : (UInt32.ofNat (i % (st.points.length + 1))).toNat = i % (st.points.length + 1) :=
      UInt32.toNat_ofNat_of_lt' (by omega)
    have hinside : ¬(word st).points.length < i % (st.points.length + 1) := by
      rw [word, List.length_map]
      omega
    have hnext : add (.ofNat (i % (st.points.length + 1))) 1 =
        .ok (.ofNat (i % (st.points.length + 1) + 1)) := add_ofNat (b := 1) (by omega)
    have hwords : st.points.length + 1 < wordSize ∧
        st.n + i / (st.points.length + 1) < wordSize := ⟨hlength, hn⟩
    rw [fit_ok hn, ok_bind, remainder_ofNat hfits hlength (Nat.succ_pos _), ok_bind, if_neg hhigh,
      hindex, if_neg hinside, hnext, ok_bind, if_pos hwords]
    refine ⟨?_, fun st' hst' => ?_⟩
    · show Except.ok _ = Except.ok _
      simp only [word, List.map_insertIdx]
    · cases hst'
      refine ⟨hlow, hn, ?_, hbias, fun p hp => ?_⟩
      · rw [List.length_insertIdx, if_pos hmod]
        exact Nat.succ_le_succ hmod
      · rcases List.eq_or_mem_of_mem_insertIdx hp with rfl | hp
        · exact hn
        · exact h.points p hp
  · rw [fit_error hn, error_bind, if_neg (show ¬(_ < wordSize ∧ _ < wordSize) from fun h => hn h.2)]
    exact ⟨rfl, nofun⟩

/-- All insertions are made as in unbounded arithmetic. -/
theorem insertions_word (rounds : Nat) : ∀ {st : Punycode.State} {cs : List Char}, Fits st →
    st.points.length + cs.length + 1 < UInt32.size → cs.length ≤ rounds →
      insertions rounds (word st) cs =
          outcome (List.map .ofNat) (Punycode.insertions rounds st cs) ∧
        ∀ points ∈ Punycode.insertions rounds st cs, ∀ p ∈ points, p < UInt32.size := by
  have hsize : UInt32.size = 4294967296 := rfl
  induction rounds with
  | zero =>
    intro st cs h _ hcs
    obtain rfl : cs = [] := List.length_eq_zero_iff.mp (Nat.le_zero.mp hcs)
    refine ⟨rfl, fun points hp => ?_⟩
    cases hp
    exact h.points
  | succ rounds ih =>
    intro st cs h hlength hcs
    cases cs with
    | nil =>
      refine ⟨rfl, fun points hp => ?_⟩
      cases hp
      exact h.points
    | cons c cs =>
      rw [List.length_cons] at hlength hcs
      have hplace := h.place
      have hbias := h.bias
      have hread : readNumber (word st).bias (word st).i 1 base (c :: cs) =
          outcome (fun r => (UInt32.ofNat r.1, r.2))
            (Punycode.readNumber st.bias st.i 1 Punycode.base (c :: cs)) :=
        readNumber_ofNat (w := 1) (j := 0) (by omega) (c :: cs) (by omega) (by omega) (by decide)
      have hstep : insertions (rounds + 1) (word st) (c :: cs) = (do
          let (i, cs) ← readNumber (word st).bias (word st).i 1 base (c :: cs)
          insertions rounds (← (word st).insert i) cs) := rfl
      rw [hstep, hread, insertions_succ (List.cons_ne_nil c cs)]
      cases hnumber : Punycode.readNumber st.bias st.i 1 Punycode.base (c :: cs) with
      | none => exact ⟨rfl, nofun⟩
      | some r =>
        obtain ⟨i, rest⟩ := r
        obtain ⟨delta, hi, hfits, -⟩ := readNumber_eq_some hnumber
        have hshorter := readNumber_length_lt hnumber
        rw [List.length_cons] at hshorter
        obtain ⟨hinsert, hnext⟩ := insert_word h (show st.i ≤ i by omega) hfits (by omega)
        show (do insertions rounds (← (word st).insert (.ofNat i)) rest) = _ ∧ _
        dsimp only
        rw [hinsert]
        cases hput : st.insert i with
        | none => exact ⟨rfl, nofun⟩
        | some st' =>
          have hlonger := State.insert_length hput
          exact ih (hnext st' hput) (by omega) (by omega)

/-! ## The whole run -/

theorem length_le_utf8ByteSize (s : String) : s.toList.length ≤ s.utf8ByteSize := by
  have key : ∀ cs : List Char, cs.length ≤ (String.ofList cs).utf8ByteSize := by
    intro cs
    induction cs with
    | nil => exact Nat.zero_le _
    | cons c cs ih =>
      have hpos := c.utf8Size_pos
      rw [String.ofList_cons, String.utf8ByteSize_append, String.utf8ByteSize_singleton,
        List.length_cons]
      omega
  have h := key s.toList
  rwa [String.ofList_toList] at h

/-- The state before the first insertion. -/
theorem word_literal (literal : List Char) :
    word { points := literal.map Char.toNat } = { points := literal.map Char.val } := by
  have hpoints : (literal.map Char.toNat).map UInt32.ofNat = literal.map Char.val := by
    rw [List.map_map]
    exact List.map_congr_left fun c _ => UInt32.ofNat_toNat
  rw [word, hpoints]
  rfl

theorem fits_literal (literal : List Char) : Fits { points := literal.map Char.toNat } where
  low := Nat.le_refl _
  high := show 0x80 < UInt32.size by decide
  place := Nat.zero_le _
  bias := show 72 ≤ 216 by decide
  points p hp := by
    obtain ⟨c, -, rfl⟩ := List.mem_map.mp hp
    exact c.val.toNat_lt

/-- **Decoding is safe in 32-bit arithmetic.** For a text shorter than the largest word, no operation
overflows, underflows or divides by 0, each insertion is inside the list, no code point of ASCII is
inserted, and the loops end: the run stops at malformed texts only. What it gives has no more code points
than the text has characters. -/
theorem decodePoints_safe (s : String) (hs : s.utf8ByteSize < 2 ^ 32 - 1) :
    decodePoints s = outcome (List.map UInt32.ofNat) (Punycode.decodePoints s) ∧
      ∀ points ∈ Punycode.decodePoints s, points.length ≤ s.length ∧ ∀ p ∈ points, p < 2 ^ 32 := by
  suffices hrun : decodePoints s = outcome (List.map UInt32.ofNat) (Punycode.decodePoints s) ∧
      ∀ points ∈ Punycode.decodePoints s, ∀ p ∈ points, p < UInt32.size from
    ⟨hrun.1, fun points hp => ⟨decodePoints_length_le hp, hrun.2 points hp⟩⟩
  have hsize : UInt32.size = 4294967296 := rfl
  have hbytes := length_le_utf8ByteSize s
  have hsplit := split_length_le s.toList
  unfold decodePoints Punycode.decodePoints
  generalize split s.toList = parts at hsplit ⊢
  obtain ⟨literal, digits⟩ := parts
  dsimp only at hsplit ⊢
  split
  · rw [← word_literal]
    refine insertions_word _ (fits_literal literal) ?_ (Nat.le_refl _)
    rw [List.length_map]
    omega
  · exact ⟨rfl, nofun⟩

/-- The largest word can be inserted twice, and the next number is refused. -/
theorem decodePoints_safe_largest :
    decodePoints "wwJACHBGaa" = .ok [0xFFFFFFFF, 0xFFFFFFFF] ∧
      decodePoints "xwJACHBGa" = .error .malformed := by
  have hlargest : Punycode.decodePoints "wwJACHBGaa" = some [0xFFFFFFFF, 0xFFFFFFFF] := by
    decide +kernel
  have hbeyond : Punycode.decodePoints "xwJACHBGa" = none := by decide +kernel
  have h := (decodePoints_safe "wwJACHBGaa" (by decide)).1
  have h' := (decodePoints_safe "xwJACHBGa" (by decide)).1
  rw [hlargest] at h
  rw [hbeyond] at h'
  exact ⟨h, h'⟩

end Demangle.Punycode.Machine
