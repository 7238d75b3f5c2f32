import Mathlib.Tactic.IntervalCases
import ShadingMachine.Proofs.Noise.Words
import ShadingMachine.Proofs.Number.Sum

/-! Noise by words. As long as all lattice coordinates have room below the end of the words, no sum
wraps around, no look-up misses the table, and the values are those of noise. The shift of a channel
does not use the room up: up there floats are multiples of 128. Cell noise is a fraction of 16
bits. -/
namespace ShadingMachine.Noise

open Number

/-! Room -/

/-- Two bytes can be added to the lattice coordinate, and it is a word again. -/
def HasRoom (v : Int) : Prop := -2 ^ 31 ≤ v ∧ v ≤ 2 ^ 31 - 1 - 512

instance (v : Int) : Decidable (HasRoom v) := inferInstanceAs (Decidable (_ ∧ _))

theorem cellOf_word (x : Float32) : -2 ^ 31 ≤ cellOf x ∧ cellOf x < 2 ^ 31 := by
  rw [cellOf, floorWord]
  split
  · decide
  · split <;> decide
  · omega

section
variable {x : Float32} {a : ℚ}

theorem hasRoom_iff (h : singleValue? x = some a) : HasRoom (cellOf x) ↔ a < 2 ^ 31 - 512 := by
  have hfloor : ⌊a⌋ < 2 ^ 31 - 512 ↔ a < 2 ^ 31 - 512 := by
    rw [Int.floor_lt]
    norm_num
  rw [cellOf, floorWord_of_value h, ← hfloor, HasRoom]
  omega

theorem le_of_room_of_positive {m : ℕ} {e : ℤ} (hm : IsSingle m e)
    (ha : (m : ℚ) * 2 ^ e < 2 ^ 31 - 512) : (m : ℚ) * 2 ^ e ≤ 2 ^ 31 - 640 := by
  by_cases he : e ≤ 6
  · have hlt : (m : ℚ) < 2 ^ 24 := by exact_mod_cast hm.lt
    have hle : (2 : ℚ) ^ e ≤ 2 ^ (6 : ℤ) := zpow_le_zpow_right₀ one_le_two he
    have hmul := mul_le_mul hlt.le hle (two_zpow_pos e).le (by norm_num)
    norm_num at hmul ⊢
    linarith
  · obtain ⟨j, rfl⟩ : ∃ j : ℕ, e = 7 + j := ⟨(e - 7).toNat, by omega⟩
    have hmultiple : (m : ℚ) * 2 ^ (7 + j : ℤ) = (128 * (m * 2 ^ j) : ℕ) := by
      rw [zpow_add₀ two_ne_zero, zpow_natCast]
      push_cast
      ring
    rw [hmultiple] at ha ⊢
    have hlt : ((128 * (m * 2 ^ j) + 512 : ℕ) : ℚ) < (2 ^ 31 : ℕ) := by
      push_cast at ha ⊢
      linarith
    have hle : ((128 * (m * 2 ^ j) + 640 : ℕ) : ℚ) ≤ (2 ^ 31 : ℕ) := by
      norm_cast at hlt ⊢
      omega
    push_cast at hle ⊢
    linarith

/-- The last float with room is 128 before the first without. -/
theorem le_of_room (h : singleValue? x = some a) (ha : a < 2 ^ 31 - 512) : a ≤ 2 ^ 31 - 640 := by
  by_cases hsign : a ≤ 0
  · exact hsign.trans (by norm_num)
  rcases cases_of_value h with ⟨negative, rfl⟩ | ⟨m, e, hm, negative, rfl⟩
  · rw [singleValue?_zeroOf, Option.some_inj] at h
    exact absurd h.ge hsign
  · rw [singleValue?_float, Option.some_inj] at h
    subst h
    cases negative with
    | true =>
      refine absurd ?_ hsign
      have hpos : (0 : ℚ) ≤ m * 2 ^ e := by positivity
      simpa [signOf, Float.Model.UnpackedFloat.Sign.apply] using hpos
    | false => exact le_of_room_of_positive hm ha

theorem exists_shift (channel : Nat) :
    ∃ b, singleValue? (channelShift channel) = some b ∧ 0 ≤ b ∧ b ≤ 48 := by
  unfold channelShift
  split
  · exact ⟨0, by decide +kernel, le_rfl, by norm_num⟩
  · have hparts : partsOf 19.34 = .finite false ⟨10139730, -19, false⟩ := rfl
    refine ⟨_, singleValue?_of_partsOf hparts, ?_, ?_⟩ <;>
      norm_num [signOf, Float.Model.UnpackedFloat.Sign.apply]
  · have hparts : partsOf 47.81 = .finite false ⟨12533105, -18, false⟩ := rfl
    refine ⟨_, singleValue?_of_partsOf hparts, ?_, ?_⟩ <;>
      norm_num [signOf, Float.Model.UnpackedFloat.Sign.apply]

/-- The sum of a coordinate with room and a small number has room: it is 64 off at most. -/
theorem hasRoom_add {y : Float32} {b : ℚ} (hx : singleValue? x = some a)
    (hy : singleValue? y = some b) (hroom : HasRoom (cellOf x)) (hlow : 0 ≤ b) (hhigh : b ≤ 48) :
    HasRoom (cellOf (x + y)) := by
  have ha := le_of_room hx ((hasRoom_iff hx).mp hroom)
  obtain ⟨hleast, -⟩ := abs_le.mp (abs_le_of_value hx)
  have hlimit : |a + b| < limit := by
    norm_num [limit, abs_lt] at hleast ⊢
    constructor <;> linarith
  by_cases hsign : a + b ≤ 0
  · have hlt : |a + b| < 2 ^ (128 : ℤ) := hlimit.trans (by norm_num [limit])
    obtain ⟨c, hc, -, hle⟩ := exists_value_add hx hy hlimit hlt (by decide)
    have hc₀ := hle hsign
    exact (hasRoom_iff hc).mpr (by linarith)
  · have hlt : |a + b| < 2 ^ (31 : ℤ) := by
      rw [abs_of_pos (not_le.mp hsign)]
      norm_num
      linarith
    obtain ⟨c, hc, herror, -⟩ := exists_value_add hx hy hlimit hlt (by decide)
    obtain ⟨-, hle⟩ := abs_le.mp herror
    norm_num at hle
    exact (hasRoom_iff hc).mpr (by linarith)

/-- A coordinate with room has room in every channel. -/
theorem hasRoom_shift (channel : Nat) (hroom : HasRoom (cellOf x)) :
    HasRoom (cellOf (x + channelShift channel)) := by
  cases hx : singleValue? x with
  | some a =>
    obtain ⟨b, hb, hlow, hhigh⟩ := exists_shift channel
    exact hasRoom_add hx hb hroom hlow hhigh
  | none =>
    rcases cases_of_no_value hx with rfl | ⟨s, rfl⟩
    · unfold channelShift
      split <;> decide +kernel
    · cases s with
      | positive => exact absurd hroom (by decide +kernel)
      | negative =>
        unfold channelShift
        split <;> decide +kernel

end

/-! Noise by words -/

namespace Words

/-- The lattice coordinate at or below, as a word. -/
def word (x : Float32) : Int32 := .ofInt (cellOf x)

theorem toInt_word (x : Float32) : (word x).toInt = cellOf x :=
  Int32.toInt_ofInt_of_le (cellOf_word x).1 (cellOf_word x).2

/-- The next coordinate, on the far side of a cell. -/
def ahead (far : Bool) (v : Int32) : Run Int32 := if far then plus v 1 else pure v

theorem yields_ahead {far : Bool} {v : Int32} (h : v.toInt + 1 < 2 ^ 31) :
    (ahead far v).Yields (·.toInt = v.toInt + far.toNat) := by
  have hlow := v.le_toInt
  have hone : (1 : Int32).toInt = 1 := by decide
  cases far with
  | false => exact Run.yields_pure (Int.add_zero _).symm
  | true => exact yields_plus (by omega) (by omega)

/-- There is no next coordinate behind the last word. -/
example : ¬∀ s ∈ (ahead true (word 2147483648)).steps, s.InRange := by decide +kernel

/-- Takes one more coordinate into a hash. -/
def mix (h v : Int32) (far : Bool) : Run Int32 := do
  let sum ← plus h v
  lookUp (← ahead far sum)

def corner₁ (i : Int32) (di : Bool) : Run Int32 := do lookUp (← ahead di i)

def corner₂ (i j : Int32) (di dj : Bool) : Run Int32 := do mix (← corner₁ i di) j dj

def corner₃ (i j k : Int32) (di dj dk : Bool) : Run Int32 := do mix (← corner₂ i j di dj) k dk

section
variable {h i j k v : Int32} {n : Nat} {di dj dk far : Bool}

theorem yields_mix (hh : Holds h n) (hv : HasRoom v.toInt) :
    (mix h v far).Yields (Holds · (hash (n + v.toInt + far.toNat))) := by
  have hsum : h.toInt + v.toInt = n + v.toInt := by rw [hh.toInt]
  have hn := hh.lt
  obtain ⟨hlow, hhigh⟩ := hv
  refine (yields_plus (by omega) (by omega)).bind fun sum hplus => ?_
  refine (yields_ahead (by omega)).bind fun w hw => ?_
  rw [← hsum, ← hplus, ← hw]
  exact yields_lookUp w

theorem yields_corner₁ (hi : HasRoom i.toInt) :
    (corner₁ i di).Yields (Holds · (hash (i.toInt + di.toNat))) := by
  have hhigh := hi.2
  refine (yields_ahead (by omega)).bind fun w hw => ?_
  rw [← hw]
  exact yields_lookUp w

theorem yields_corner₂ (hi : HasRoom i.toInt) (hj : HasRoom j.toInt) :
    (corner₂ i j di dj).Yields
      (Holds · (hash (hash (i.toInt + di.toNat) + j.toInt + dj.toNat))) :=
  (yields_corner₁ hi).bind fun _ hh => yields_mix hh hj

theorem yields_corner₃ (hi : HasRoom i.toInt) (hj : HasRoom j.toInt) (hk : HasRoom k.toInt) :
    (corner₃ i j k di dj dk).Yields (Holds · (hash
      (hash (hash (i.toInt + di.toNat) + j.toInt + dj.toNat) + k.toInt + dk.toNat))) :=
  (yields_corner₂ hi hj).bind fun _ hh => yields_mix hh hk

end

/-- Blends what is on the two sides of a cell. -/
def across (t : Float32) (side : Bool → Run Float32) : Run Float32 := do
  let near ← side false
  let far ← side true
  return blend (fade t) near far

/-- The blend of the values on the two sides. -/
def blendSides (t : Float32) (value : Bool → Float32) : Float32 :=
  blend (fade t) (value false) (value true)

theorem yields_across {t : Float32} {side : Bool → Run Float32} {value : Bool → Float32}
    (h : ∀ far, (side far).Yields (· = value far)) :
    (across t side).Yields (· = blendSides t value) := by
  refine (h false).bind fun near hnear => (h true).bind fun far hfar => Run.yields_pure ?_
  rw [hnear, hfar, blendSides]

def noise₁ (x : Float32) : Run Float32 :=
  let s := x - x.floor
  across s fun far => do
    let h ← corner₁ (word x) far
    return gradient₁ h.toNatClampNeg (if far then s - 1 else s)

def noise₂ (x y : Float32) : Run Float32 :=
  let s := x - x.floor
  let t := y - y.floor
  across t fun dj => across s fun di => do
    let h ← corner₂ (word x) (word y) di dj
    return gradient₂ h.toNatClampNeg (s - Float32.ofNat di.toNat) (t - Float32.ofNat dj.toNat)

def noise₃ (x y z : Float32) : Run Float32 :=
  let r := x - x.floor
  let s := y - y.floor
  let t := z - z.floor
  across t fun dk => across s fun dj => across r fun di => do
    let h ← corner₃ (word x) (word y) (word z) di dj dk
    return gradient₃ h.toNatClampNeg (r - Float32.ofNat di.toNat) (s - Float32.ofNat dj.toNat)
      (t - Float32.ofNat dk.toNat)

def noise₄ (x y z w : Float32) : Run Float32 :=
  across (w - w.floor) fun far => do
    let h ← corner₁ (word w) far
    noise₃ (x + Float32.ofNat h.toNatClampNeg * 0.618) y z

section
variable {x y z w : Float32}

theorem gradientNoise₁_eq : gradientNoise₁ x = blendSides (x - x.floor) fun far =>
    gradient₁ (hash (cellOf x + far.toNat)) (if far then x - x.floor - 1 else x - x.floor) := by
  have hnear : cellOf x + (false.toNat : Int) = cellOf x := Int.add_zero _
  rw [blendSides, hnear]
  rfl

theorem gradientNoise₂_eq : gradientNoise₂ x y =
    blendSides (y - y.floor) fun dj => blendSides (x - x.floor) fun di =>
      gradient₂ (hash (hash (cellOf x + di.toNat) + cellOf y + dj.toNat))
        (x - x.floor - Float32.ofNat di.toNat) (y - y.floor - Float32.ofNat dj.toNat) := rfl

theorem gradientNoise₃_eq : gradientNoise₃ x y z =
    blendSides (z - z.floor) fun dk => blendSides (y - y.floor) fun dj =>
      blendSides (x - x.floor) fun di =>
        gradient₃ (hash (hash (hash (cellOf x + di.toNat) + cellOf y + dj.toNat) + cellOf z +
            dk.toNat))
          (x - x.floor - Float32.ofNat di.toNat) (y - y.floor - Float32.ofNat dj.toNat)
          (z - z.floor - Float32.ofNat dk.toNat) := rfl

theorem yields_noise₁ (hx : HasRoom (cellOf x)) : (noise₁ x).Yields (· = gradientNoise₁ x) := by
  rw [← toInt_word] at hx
  rw [noise₁, gradientNoise₁_eq]
  refine yields_across fun far => (yields_corner₁ hx).bind fun h hh => Run.yields_pure ?_
  rw [hh.toNat, toInt_word]

theorem yields_noise₂ (hx : HasRoom (cellOf x)) (hy : HasRoom (cellOf y)) :
    (noise₂ x y).Yields (· = gradientNoise₂ x y) := by
  rw [← toInt_word] at hx hy
  rw [noise₂, gradientNoise₂_eq]
  refine yields_across fun dj => yields_across fun di =>
    (yields_corner₂ hx hy).bind fun h hh => Run.yields_pure ?_
  rw [hh.toNat, toInt_word, toInt_word]

theorem yields_noise₃ (hx : HasRoom (cellOf x)) (hy : HasRoom (cellOf y))
    (hz : HasRoom (cellOf z)) : (noise₃ x y z).Yields (· = gradientNoise₃ x y z) := by
  rw [← toInt_word] at hx hy hz
  rw [noise₃, gradientNoise₃_eq]
  refine yields_across fun dk => yields_across fun dj => yields_across fun di =>
    (yields_corner₃ hx hy hz).bind fun h hh => Run.yields_pure ?_
  rw [hh.toNat, toInt_word, toInt_word, toInt_word]

/-- Where a slice starts along the first coordinate. -/
def sliceStart (x w : Float32) (far : Bool) : Float32 :=
  x + Float32.ofNat (hash (cellOf w + far.toNat)) * 0.618

theorem gradientNoise₄_eq : gradientNoise₄ x y z w =
    blendSides (w - w.floor) fun far => gradientNoise₃ (sliceStart x w far) y z := by
  have hnear : cellOf w + (false.toNat : Int) = cellOf w := Int.add_zero _
  rw [blendSides, sliceStart, hnear]
  rfl

theorem yields_noise₄ (hx : ∀ far, HasRoom (cellOf (sliceStart x w far)))
    (hy : HasRoom (cellOf y)) (hz : HasRoom (cellOf z)) (hw : HasRoom (cellOf w)) :
    (noise₄ x y z w).Yields (· = gradientNoise₄ x y z w) := by
  rw [← toInt_word] at hw
  rw [noise₄, gradientNoise₄_eq]
  refine yields_across fun far => (yields_corner₁ hw).bind fun h hh => ?_
  rw [hh.toNat, toInt_word]
  exact yields_noise₃ (hx far) hy hz

end

/-- Gradient noise from zero to one. -/
def smooth (coordinates : List Float32) (channel : Nat) : Run Float32 := do
  let shift := channelShift channel
  let n ← match coordinates with
    | [] => noise₁ (0 + shift)
    | [x] => noise₁ (x + shift)
    | [x, y] => noise₂ (x + shift) (y + shift)
    | [x, y, z] => noise₃ (x + shift) (y + shift) (z + shift)
    | x :: y :: z :: w :: _ => noise₄ (x + shift) (y + shift) (z + shift) (w + shift)
  return Scalar.toUnit (1 / 2 + 1 / 2 * n)

/-- Where the two slices of a fourth coordinate start along the first one. -/
def sliceStarts (coordinates : List Float32) (channel : Nat) : List Float32 :=
  match coordinates with
  | x :: _ :: _ :: w :: _ =>
    [false, true].map (sliceStart (x + channelShift channel) (w + channelShift channel))
  | _ => []

theorem yields_smooth {coordinates : List Float32} {channel : Nat}
    (hroom : ∀ x ∈ coordinates, HasRoom (cellOf x))
    (hslices : ∀ x ∈ sliceStarts coordinates channel, HasRoom (cellOf x)) :
    (smooth coordinates channel).Yields (· = Noise.smooth coordinates channel) := by
  have hshift (x : Float32) (hx : x ∈ coordinates) := hasRoom_shift channel (hroom x hx)
  have hunit {r : Run Float32} {n : Float32} (h : r.Yields (· = n)) :
      (do return Scalar.toUnit (1 / 2 + 1 / 2 * (← r))).Yields
        (· = Scalar.toUnit (1 / 2 + 1 / 2 * n)) :=
    h.bind fun _ hn => Run.yields_pure (by rw [hn])
  rcases coordinates with _ | ⟨x, _ | ⟨y, _ | ⟨z, _ | ⟨w, rest⟩⟩⟩⟩
  · have hzero : HasRoom (cellOf 0) := by decide +kernel
    exact hunit (yields_noise₁ (hasRoom_shift channel hzero))
  · simp only [List.forall_mem_cons] at hshift
    exact hunit (yields_noise₁ hshift.1)
  · simp only [List.forall_mem_cons] at hshift
    exact hunit (yields_noise₂ hshift.1 hshift.2.1)
  · simp only [List.forall_mem_cons] at hshift
    exact hunit (yields_noise₃ hshift.1 hshift.2.1 hshift.2.2.1)
  · simp only [List.forall_mem_cons] at hshift
    obtain ⟨-, hy, hz, hw, -⟩ := hshift
    refine hunit (yields_noise₄ (fun far => hslices _ (List.mem_map_of_mem ?_)) hy hz hw)
    cases far <;> decide

/-- Takes a coordinate into a hash: its last eight bits, then those before them. -/
def mixWord (h v : Int32) : Run Int32 := do
  let last ← lookUp (← plus h v)
  lookUp (← plus last (v >>> 8))

def cell (coordinates : List Float32) (channel : Nat) : Run Float32 := do
  let first ← lookUp (.ofNat channel * 71)
  let low ← (coordinates.map word).foldlM mixWord first
  let high ← lookUp (← plus low 113)
  return Float32.ofNat (high <<< 8 ||| low).toNatClampNeg / 65536

section
variable {h v : Int32} {n : Nat}

theorem yields_mixWord (hh : Holds h n) (hv : HasRoom v.toInt) :
    (mixWord h v).Yields (Holds · (mixCell n v.toInt)) := by
  have hn := hh.toInt
  have hlt := hh.lt
  have hshift := toInt_shiftRight_eight v
  obtain ⟨hlow, hhigh⟩ := hv
  refine (yields_plus (by omega) (by omega)).bind fun sum hsum => ?_
  refine (yields_lookUp sum).bind fun last hlast => ?_
  have hbyte := hlast.toInt
  have hlt' := hlast.lt
  refine (yields_plus (by omega) (by omega)).bind fun sum' hsum' => ?_
  rw [mixCell, ← hn, ← hsum, ← hlast.toInt, ← hshift, ← hsum']
  exact yields_lookUp sum'

/-- By induction on the coordinates: after each of them the hash is a byte again. -/
theorem yields_mixWords (hh : Holds h n) {vs : List Int32} (hvs : ∀ v ∈ vs, HasRoom v.toInt) :
    (vs.foldlM mixWord h).Yields (Holds · ((vs.map Int32.toInt).foldl mixCell n)) := by
  induction vs generalizing h n with
  | nil => exact Run.yields_pure hh
  | cons v vs ih =>
    obtain ⟨hv, hvs⟩ := List.forall_mem_cons.mp hvs
    rw [List.foldlM_cons, List.map_cons, List.foldl_cons]
    exact (yields_mixWord hh hv).bind fun h' hh' => ih hh' hvs

end

theorem yields_cell {coordinates : List Float32} {channel : Nat} (hchannel : channel < 3)
    (h : ∀ x ∈ coordinates, HasRoom (cellOf x)) :
    (cell coordinates channel).Yields (· = Noise.cell coordinates channel) := by
  have hfirst : (Int32.ofNat channel * 71).toInt = channel * 71 := by
    interval_cases channel <;> decide
  have hwords : (coordinates.map word).map Int32.toInt = coordinates.map cellOf := by
    rw [List.map_map]
    exact List.map_congr_left fun x _ => toInt_word x
  have hroom : ∀ v ∈ coordinates.map word, HasRoom v.toInt := by
    refine List.forall_mem_map.mpr fun x hx => ?_
    rw [toInt_word]
    exact h x hx
  rw [cell]
  refine (yields_lookUp _).bind fun first hh => ?_
  refine (yields_mixWords hh hroom).bind fun low hlow => ?_
  have hbyte := hlow.toInt
  have hlt := hlow.lt
  have hstep : (113 : Int32).toInt = 113 := by decide
  refine (yields_plus (by omega) (by omega)).bind fun sum hsum => ?_
  refine (yields_lookUp sum).bind fun high hhigh => Run.yields_pure ?_
  rw [hhigh.join hlow, hsum, hstep, hbyte, hwords, hfirst]
  rfl

end Words

theorem singleValue?_cell (coordinates : List Float32) (channel : Nat) :
    singleValue? (cell coordinates channel) =
      some ((cellHash (coordinates.map cellOf) channel : ℚ) / 65536) :=
  singleValue?_ofNat_div (cellHash_lt _ channel)

/-- Lattice arithmetic in words stays in range and gives noise: of one to four coordinates with
room, where a fourth one asks for room where its slices start, and of any list of coordinates with
room in any channel. Cell noise is a fraction of 16 bits that is known by channel and lattice
coordinates. -/
theorem lattice_in_range :
    Words.table.size = 512 ∧
    (∀ x, HasRoom (cellOf x) → (Words.noise₁ x).Yields (· = gradientNoise₁ x)) ∧
    (∀ x y, HasRoom (cellOf x) → HasRoom (cellOf y) →
      (Words.noise₂ x y).Yields (· = gradientNoise₂ x y)) ∧
    (∀ x y z, HasRoom (cellOf x) → HasRoom (cellOf y) → HasRoom (cellOf z) →
      (Words.noise₃ x y z).Yields (· = gradientNoise₃ x y z)) ∧
    (∀ x y z w, (∀ far, HasRoom (cellOf (Words.sliceStart x w far))) → HasRoom (cellOf y) →
      HasRoom (cellOf z) → HasRoom (cellOf w) →
      (Words.noise₄ x y z w).Yields (· = gradientNoise₄ x y z w)) ∧
    (∀ coordinates channel, channel < 3 → (∀ x ∈ coordinates, HasRoom (cellOf x)) →
      ((∀ x ∈ Words.sliceStarts coordinates channel, HasRoom (cellOf x)) →
        (Words.smooth coordinates channel).Yields (· = smooth coordinates channel)) ∧
      (Words.cell coordinates channel).Yields (· = cell coordinates channel)) ∧
    ∃ k : Nat → List Int → Nat, ∀ channel coordinates,
      k channel (coordinates.map cellOf) < 65536 ∧
      singleValue? (cell coordinates channel) =
        some ((k channel (coordinates.map cellOf) : ℚ) / 65536) := by
  refine ⟨Words.size_table, fun x => Words.yields_noise₁, fun x y => Words.yields_noise₂,
    fun x y z => Words.yields_noise₃, fun x y z w => Words.yields_noise₄,
    fun coordinates channel hchannel hroom =>
      ⟨Words.yields_smooth hroom, Words.yields_cell hchannel hroom⟩,
    fun channel cells => cellHash cells channel, fun channel coordinates => ⟨?_, ?_⟩⟩
  · exact cellHash_lt _ channel
  · exact singleValue?_cell coordinates channel

/-- The last coordinate with room, the first one, and one between them. -/
theorem lattice_in_range_at_the_ends :
    let low : Float32 := -2147483648
    let high : Float32 := 2147483008
    let coordinates : List Float32 := [0.5, high, low, high]
    cellOf low = -2 ^ 31 ∧ cellOf high = 2 ^ 31 - 640 ∧
    (Words.noise₁ high).Yields (· = gradientNoise₁ high) ∧
    (Words.noise₂ low high).Yields (· = gradientNoise₂ low high) ∧
    (Words.noise₃ high low high).Yields (· = gradientNoise₃ high low high) ∧
    (Words.noise₄ 0.5 high low high).Yields (· = gradientNoise₄ 0.5 high low high) ∧
    (Words.smooth coordinates 2).Yields (· = smooth coordinates 2) ∧
    (Words.cell coordinates 2).Yields (· = cell coordinates 2) ∧
    ∃ k : Nat → List Int → Nat, k 2 [0, 2 ^ 31 - 640, -2 ^ 31, 2 ^ 31 - 640] < 65536 ∧
      singleValue? (cell coordinates 2) =
        some ((k 2 [0, 2 ^ 31 - 640, -2 ^ 31, 2 ^ 31 - 640] : ℚ) / 65536) := by
  intro low high coordinates
  have hlow : HasRoom (cellOf low) := by decide +kernel
  have hhigh : HasRoom (cellOf high) := by decide +kernel
  have hroom : ∀ x ∈ coordinates, HasRoom (cellOf x) := by decide +kernel
  have hslices : ∀ x ∈ Words.sliceStarts coordinates 2, HasRoom (cellOf x) := by decide +kernel
  have hstarts : ∀ far, HasRoom (cellOf (Words.sliceStart 0.5 high far)) := by decide +kernel
  have hcells : coordinates.map cellOf = [0, 2 ^ 31 - 640, -2 ^ 31, 2 ^ 31 - 640] := by
    decide +kernel
  obtain ⟨-, h₁, h₂, h₃, h₄, hlists, k, hk⟩ := lattice_in_range
  obtain ⟨hsmooth, hcell⟩ := hlists coordinates 2 (by decide) hroom
  exact ⟨by decide +kernel, by decide +kernel, h₁ high hhigh, h₂ low high hlow hhigh,
    h₃ high low high hhigh hlow hhigh, h₄ 0.5 high low high hstarts hhigh hlow hhigh,
    hsmooth hslices, hcell, k, hcells ▸ hk 2 coordinates⟩

end ShadingMachine.Noise
