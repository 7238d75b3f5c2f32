import Mathlib.Algebra.Order.Ring.Rat
import Mathlib.Analysis.Calculus.Deriv.Add
import Mathlib.Analysis.Calculus.Deriv.Comp
import Mathlib.Analysis.Calculus.Deriv.Mul
import Mathlib.Tactic.FieldSimp
import Mathlib.Tactic.Linarith
import Mathlib.Tactic.NormNum
import Mathlib.Tactic.Ring
import Mathlib.Topology.Algebra.Module.ModuleTopology
import Mathlib.Topology.Instances.Rat
import ShadingMachine.Proofs.Arrays.Access
import ShadingMachine.Proofs.Exact.Rationals
import ShadingMachine.Proofs.Lockstep.Promotion

/-! Curves through knots. Over exact rationals a piece begins and ends at a knot, and where two
pieces meet both have the slope of the line between the knots around; so the curve goes through its
knots without a break or a bend. The machine takes its knots from the stack and computes a curve for
each point. -/
namespace ShadingMachine

namespace Formula

section Piece

variable (a b c d u : ℚ)

@[simp] theorem splinePiece_zero : splinePiece a b c d 0 = b := by simp [splinePiece]

@[simp] theorem splinePiece_one : splinePiece a b c d 1 = c := by
  simp only [splinePiece]
  ring

theorem splinePiece_progression (q step : ℚ) :
    splinePiece q (q + step) (q + 2 * step) (q + 3 * step) u = q + (1 + u) * step := by
  simp only [splinePiece]
  ring

/-- How steep a piece is. -/
def splineSlope : ℚ :=
  3 / 2 * (d - 3 * c + 3 * b - a) * u ^ 2 + (2 * a - 5 * b + 4 * c - d) * u + (c - a) / 2

theorem splineSlope_zero : splineSlope a b c d 0 = (c - a) / 2 := by simp [splineSlope]

theorem splineSlope_one : splineSlope a b c d 1 = (d - b) / 2 := by
  simp only [splineSlope]
  ring

theorem hasDerivAt_cubic (p q r s : ℚ) :
    HasDerivAt (fun x => ((p * x + q) * x + r) * x + s) (3 * p * u ^ 2 + 2 * q * u + r) u := by
  have hid := hasDerivAt_id' u
  have hcurve :=
    (((((hid.const_mul p).add_const q).fun_mul hid).add_const r).fun_mul hid).add_const s
  refine hcurve.congr_deriv ?_
  ring

theorem hasDerivAt_splinePiece :
    HasDerivAt (splinePiece a b c d) (splineSlope a b c d u) u := by
  refine (hasDerivAt_cubic u _ _ _ b).congr_deriv ?_
  simp only [splineSlope]
  ring

end Piece

section Segment

variable {k n : Nat} {x : ℚ}

theorem splineSegment_rat (n : Nat) (x : ℚ) : splineSegment n x = min ⌊x⌋.toNat (n - 4) := by
  unfold splineSegment Scalar.toIndex
  rw [Scalar.floor_rat, Scalar.truncate_intCast]

theorem splineSegment_of_lt (h : k + 4 ≤ n) (hk : k ≤ x) (hx : x < k + 1) :
    splineSegment n x = k := by
  have hfloor : ⌊x⌋ = k := Int.floor_eq_iff.mpr ⟨by exact_mod_cast hk, by exact_mod_cast hx⟩
  rw [splineSegment_rat, hfloor, Int.toNat_natCast]
  omega

theorem splineSegment_natCast (n k : Nat) : splineSegment n (k : ℚ) = min k (n - 4) := by
  rw [splineSegment_rat, Int.floor_natCast, Int.toNat_natCast]

end Segment

theorem toUnit_of_mem {t : ℚ} (h : t ∈ Set.Icc 0 1) : Scalar.toUnit t = t := by
  rw [Scalar.toUnit, if_neg (not_lt.mpr h.1), if_neg (not_lt.mpr h.2)]

/-- The curve is computed from four knots that follow each other. -/
theorem exists_splinePiece {α : Type} [Scalar α] (t : α) {knots : List α} (h : 4 ≤ knots.length) :
    let x := splineParameter knots.length t
    let k := splineSegment knots.length x
    k + 4 ≤ knots.length ∧ ∃ a b c d, knots[k]? = some a ∧ knots[k + 1]? = some b ∧
      knots[k + 2]? = some c ∧ knots[k + 3]? = some d ∧
      spline t knots = splinePiece a b c d (x - Scalar.fromNat k) := by
  intro x k
  have hk : k + 4 ≤ knots.length := splineSegment_add_four_le h x
  have hdrop : knots.drop (splineSegment knots.length (splineParameter knots.length t)) =
      knots[k] :: knots[k + 1] :: knots[k + 2] :: knots[k + 3] :: knots.drop (k + 4) := by
    rw [List.drop_eq_getElem_cons, List.drop_eq_getElem_cons, List.drop_eq_getElem_cons,
      List.drop_eq_getElem_cons]
  refine ⟨hk, _, _, _, _, List.getElem?_eq_getElem (by omega), List.getElem?_eq_getElem (by omega),
    List.getElem?_eq_getElem (by omega), List.getElem?_eq_getElem (by omega), ?_⟩
  unfold spline
  dsimp only
  rw [if_neg (by omega), hdrop]

/-- The parameter at which the piece with a number begins. -/
def joint (knots : List ℚ) (k : Nat) : ℚ := k / (knots.length - 3 : ℕ)

/-- The piece with a number, along the parameter of the whole curve. -/
def splineAlong (knots : List ℚ) (k : Nat) (t : ℚ) : ℚ :=
  splinePiece (knots.getD k 0) (knots.getD (k + 1) 0) (knots.getD (k + 2) 0) (knots.getD (k + 3) 0)
    (t * (knots.length - 3 : ℕ) - k)

/-- How steep this piece is. -/
def slopeAlong (knots : List ℚ) (k : Nat) (t : ℚ) : ℚ :=
  splineSlope (knots.getD k 0) (knots.getD (k + 1) 0) (knots.getD (k + 2) 0)
    (knots.getD (k + 3) 0) (t * (knots.length - 3 : ℕ) - k) * (knots.length - 3 : ℕ)

/-- The curve goes through the knots in their order and stays at its ends outside its parameters. It
consists of pieces of equal length that meet with one value and one slope; and it is straight if the
knots are. -/
structure Interpolates (knots : List ℚ) : Prop where
  through : ∀ k ≤ knots.length - 3, knots[k + 1]? = some (spline (joint knots k) knots)
  before : ∀ t < 0, spline t knots = spline 0 knots
  after : ∀ t > 1, spline t knots = spline 1 knots
  pieces : ∀ k < knots.length - 3, ∀ t ∈ Set.Icc (joint knots k) (joint knots (k + 1)),
    spline t knots = splineAlong knots k t
  joints : ∀ k, k + 1 < knots.length - 3 →
    splineAlong knots k (joint knots (k + 1)) = splineAlong knots (k + 1) (joint knots (k + 1)) ∧
      ∃ slope, HasDerivAt (splineAlong knots k) slope (joint knots (k + 1)) ∧
        HasDerivAt (splineAlong knots (k + 1)) slope (joint knots (k + 1)) ∧
        HasDerivAt (fun t => spline t knots) slope (joint knots (k + 1))
  straight : ∀ start step : ℚ, (∀ k < knots.length, knots[k]? = some (start + k * step)) →
    ∀ t ∈ Set.Icc (0 : ℚ) 1, spline t knots = start + (1 + t * (knots.length - 3 : ℕ)) * step

section Along

variable {knots : List ℚ} {k : Nat} {t : ℚ}

theorem splineAlong_of_eq (h : t * (knots.length - 3 : ℕ) = k) :
    splineAlong knots k t = knots.getD (k + 1) 0 := by
  rw [splineAlong, h, sub_self, splinePiece_zero]

theorem splineAlong_of_eq_succ (h : t * (knots.length - 3 : ℕ) = (k + 1 : ℕ)) :
    splineAlong knots k t = knots.getD (k + 2) 0 := by
  rw [splineAlong, h, Nat.cast_add_one, add_sub_cancel_left, splinePiece_one]

theorem hasDerivAt_splineAlong (knots : List ℚ) (k : Nat) (t : ℚ) :
    HasDerivAt (splineAlong knots k) (slopeAlong knots k t) t := by
  have hinner : HasDerivAt (fun t : ℚ => t * (knots.length - 3 : ℕ) - k)
      (1 * (knots.length - 3 : ℕ)) t :=
    ((hasDerivAt_id' t).mul_const _).sub_const _
  have hcurve := (hasDerivAt_splinePiece (knots.getD k 0) (knots.getD (k + 1) 0)
    (knots.getD (k + 2) 0) (knots.getD (k + 3) 0) _).comp t hinner
  rwa [one_mul] at hcurve

theorem slopeAlong_eq (h : t * (knots.length - 3 : ℕ) = (k + 1 : ℕ)) :
    slopeAlong knots k t = slopeAlong knots (k + 1) t := by
  rw [slopeAlong, slopeAlong, h, sub_self, splineSlope_zero, Nat.cast_add_one, add_sub_cancel_left,
    splineSlope_one]

theorem spline_of_neg (knots : List ℚ) (ht : t < 0) : spline t knots = spline 0 knots := by
  have hunit : Scalar.toUnit t = Scalar.toUnit (0 : ℚ) := by simp [Scalar.toUnit, ht]
  unfold spline splineParameter
  rw [hunit]

theorem spline_of_one_lt (knots : List ℚ) (ht : 1 < t) : spline t knots = spline 1 knots := by
  have hunit : Scalar.toUnit t = Scalar.toUnit (1 : ℚ) := by
    simp [Scalar.toUnit, ht, not_lt.mpr (zero_lt_one.trans ht).le]
  unfold spline splineParameter
  rw [hunit]

variable (h : 4 ≤ knots.length)
include h

theorem pieceCount_pos : (0 : ℚ) < (knots.length - 3 : ℕ) := by exact_mod_cast (by omega)

theorem joint_mul (k : Nat) : joint knots k * (knots.length - 3 : ℕ) = k :=
  div_mul_cancel₀ _ (pieceCount_pos h).ne'

theorem joint_lt_succ (k : Nat) : joint knots k < joint knots (k + 1) :=
  div_lt_div_of_pos_right (by push_cast; linarith) (pieceCount_pos h)

theorem spline_eq_along (ht : t ∈ Set.Icc 0 1) : spline t knots =
    splineAlong knots (splineSegment knots.length (t * (knots.length - 3 : ℕ))) t := by
  obtain ⟨-, a, b, c, d, ha, hb, hc, hd, hspline⟩ := exists_splinePiece t h
  have hparameter : splineParameter knots.length t = t * (knots.length - 3 : ℕ) := by
    rw [splineParameter, toUnit_of_mem ht]
    rfl
  rw [hparameter] at ha hb hc hd hspline
  simp only [hspline, splineAlong, List.getD_eq_getElem?_getD, ha, hb, hc, hd, Option.getD_some]
  rfl

/-- On each stretch the curve is the piece with that number, both ends included. -/
theorem spline_eq_piece (hk : k < knots.length - 3)
    (ht : t ∈ Set.Icc (joint knots k) (joint knots (k + 1))) :
    spline t knots = splineAlong knots k t := by
  have hcount := pieceCount_pos h
  have hfrom : k ≤ t * (knots.length - 3 : ℕ) := (div_le_iff₀ hcount).mp ht.1
  have hto : t * (knots.length - 3 : ℕ) ≤ (k + 1 : ℕ) := (le_div_iff₀ hcount).mp ht.2
  have hunit : t ∈ Set.Icc 0 1 := by
    have hfirst : (0 : ℚ) ≤ k := k.cast_nonneg
    have hlast : ((k + 1 : ℕ) : ℚ) ≤ (knots.length - 3 : ℕ) := by exact_mod_cast hk
    constructor <;> refine le_of_mul_le_mul_right ?_ hcount <;> linarith
  rw [spline_eq_along h hunit]
  obtain hlt | heq := hto.lt_or_eq
  · rw [splineSegment_of_lt (by omega) hfrom (by exact_mod_cast hlt)]
  · -- At the end of a piece the next one applies, unless there is none.
    rw [heq, splineSegment_natCast]
    by_cases hend : k + 1 ≤ knots.length - 4
    · rw [Nat.min_eq_left hend, splineAlong_of_eq heq, splineAlong_of_eq_succ heq]
    · rw [show min (k + 1) (knots.length - 4) = k by omega]

theorem getElem?_eq_spline (hk : k ≤ knots.length - 3) :
    knots[k + 1]? = some (spline (joint knots k) knots) := by
  have hplace := joint_mul h
  have hknot : knots[k + 1]? = some (knots.getD (k + 1) 0) := by
    rw [List.getElem?_eq_getElem (by omega), List.getD_eq_getElem?_getD,
      List.getElem?_eq_getElem (by omega), Option.getD_some]
  rw [hknot]
  cases k with
  | zero =>
    have hfirst := joint_lt_succ h 0
    rw [spline_eq_piece h (by omega) ⟨le_rfl, hfirst.le⟩, splineAlong_of_eq (hplace 0)]
  | succ k =>
    have hlast := joint_lt_succ h k
    rw [spline_eq_piece h (by omega) ⟨hlast.le, le_rfl⟩, splineAlong_of_eq_succ (hplace (k + 1))]

/-- On both sides of a joint the curve has the slope that the pieces have there. -/
theorem hasDerivAt_spline (hk : k + 1 < knots.length - 3) :
    HasDerivAt (fun t => spline t knots) (slopeAlong knots k (joint knots (k + 1)))
      (joint knots (k + 1)) := by
  have hfrom := joint_lt_succ h k
  have hto := joint_lt_succ h (k + 1)
  have hleft := (hasDerivAt_splineAlong knots k (joint knots (k + 1))).hasDerivWithinAt.congr
    (fun t ht => spline_eq_piece h (by omega) ht) (spline_eq_piece h (by omega) ⟨hfrom.le, le_rfl⟩)
  have hright := (hasDerivAt_splineAlong knots (k + 1)
    (joint knots (k + 1))).hasDerivWithinAt.congr
    (fun t ht => spline_eq_piece h hk ht) (spline_eq_piece h hk ⟨le_rfl, hto.le⟩)
  rw [← slopeAlong_eq (joint_mul h (k + 1))] at hright
  have hboth := hleft.union hright
  rw [Set.Icc_union_Icc_eq_Icc hfrom.le hto.le] at hboth
  exact hboth.hasDerivAt (Icc_mem_nhds hfrom hto)

theorem spline_of_progression {start step : ℚ}
    (hknots : ∀ k < knots.length, knots[k]? = some (start + k * step)) (ht : t ∈ Set.Icc 0 1) :
    spline t knots = start + (1 + t * (knots.length - 3 : ℕ)) * step := by
  rw [spline_eq_along h ht]
  have hle := splineSegment_add_four_le h (t * (knots.length - 3 : ℕ))
  generalize splineSegment knots.length (t * (knots.length - 3 : ℕ)) = k at hle ⊢
  have hknot (j : Nat) (hj : k + j < knots.length) :
      knots.getD (k + j) 0 = start + k * step + j * step := by
    rw [List.getD_eq_getElem?_getD, hknots _ hj, Option.getD_some]
    push_cast
    ring
  have hfirst := hknot 0 (by omega)
  rw [Nat.add_zero, Nat.cast_zero, zero_mul, add_zero] at hfirst
  rw [splineAlong, hfirst, hknot 1 (by omega), hknot 2 (by omega), hknot 3 (by omega)]
  push_cast
  rw [one_mul, splinePiece_progression]
  ring

theorem interpolates : Interpolates knots where
  through _ hk := getElem?_eq_spline h hk
  before _ ht := spline_of_neg knots ht
  after _ ht := spline_of_one_lt knots ht
  pieces _ hk _ ht := spline_eq_piece h hk ht
  joints k hk := by
    have hplace := joint_mul h (k + 1)
    refine ⟨by rw [splineAlong_of_eq hplace, splineAlong_of_eq_succ hplace], _,
      hasDerivAt_splineAlong knots k _, ?_, hasDerivAt_spline h hk⟩
    rw [slopeAlong_eq hplace]
    exact hasDerivAt_splineAlong knots (k + 1) _
  straight _ _ hknots _ ht := spline_of_progression h hknots ht

end Along

end Formula

/-- The curve that a spline opcode computes at each point, with the type of its knots. -/
def MathFunction.curve? : MathFunction →
    Option ((type : ValueType) × (Float32 → List type.storage.Elem → type.storage.Elem))
  | floatSpline => some ⟨.float, Formula.spline⟩
  | colorSpline => some ⟨.color, Formula.splineColor⟩
  | pointSpline => some ⟨.point, Formula.splineTriple⟩
  | _ => none

section Curve

variable {f : MathFunction} {type : ValueType}
  {curve : Float32 → List type.storage.Elem → type.storage.Elem}

theorem MathFunction.rule?_of_curve? (h : f.curve? = some ⟨type, curve⟩) : f.rule? = none := by
  cases f <;> first | rfl | cases h

theorem MathFunction.spline?_of_curve? (h : f.curve? = some ⟨type, curve⟩) (n : Nat) :
    f.spline? n = some ⟨type, .float :: .replicate n type.storage, type.storage,
      fun t => Curried.ofList type.storage n (curve t)⟩ := by
  cases f <;> first | cases h; rfl | cases h

theorem Curried.applyAt_ofList {α : Type} {s : Storage} (g : List s.Elem → α) (vs : List Value)
    (p : Nat) : applyAt (.replicate vs.length s) (ofList s vs.length g) vs p =
      g (vs.map fun v => v.get s p) := by
  induction vs generalizing g with
  | nil => rfl
  | cons v vs ih => exact ih fun xs => g (v.get s p :: xs)

theorem Elementwise.checkOperands_replicate (op : String) {s : Storage} {vs : List Value}
    (h : ∀ v ∈ vs, v.data.storage = s) : checkOperands op (.replicate vs.length s) vs = .ok () := by
  induction vs with
  | nil => rfl
  | cons v vs ih =>
    rw [List.forall_mem_cons] at h
    rw [List.length_cons, List.replicate_succ, checkOperands, if_pos h.1, ih h.2]

end Curve

/-- The operands of a spline lie on the stack: the parameter, the knots in the order in which they
were pushed, and on top their number. -/
structure Session.HoldsKnots {ε : Type} (s : Session ε) (type : ValueType) (parameter : Slot)
    (knots rest : List Slot) : Prop where
  accounts : s.machine.Accounts
  mask : ∀ p ∈ s.machine.mask.ones, p < s.machine.gridSize
  stack : ∃ count, s.machine.stack = count :: (knots.reverse ++ parameter :: rest) ∧
    (s.machine.pools.value count).data.storage = .float ∧
    Scalar.toIndex ((s.machine.pools.value count).getFloat 0) = knots.length
  parameter : (s.machine.pools.value parameter).data.storage = .float
  knots : ∀ slot ∈ knots, (s.machine.pools.value slot).data.storage = type.storage

namespace Exec

variable {ε : Type} {s : Session ε} {i : Instruction}

/-- What is computed point by point is found at the active points of the result. -/
theorem ends_produce (type : ValueType) (slots : List Slot)
    (fill : List Value → Value → Mask → Except ExecError Value) (element : Nat → type.storage.Elem)
    (haccounts : s.machine.pools.Accounts (slots + s.machine.stack))
    (hmask : ∀ p ∈ s.machine.mask.ones, p < s.machine.gridSize)
    (hfill : ∀ out : Value, out.type = type → out.data.storage = type.storage →
      fill (slots.map s.machine.pools.value) out s.machine.mask =
        .ok (out.write type.storage s.machine.mask element))
    (huniform : (∀ slot ∈ slots, slot.detail = .uniform) → ∀ p, element 0 = element p) :
    Ends (produce type slots fun args out mask => return fill args out mask) s
      (fun _ t => ∃ slot, t.machine.stack = slot :: s.machine.stack ∧ slot.type = type ∧
        slot.detail = .joinAll (slots.map (·.detail)) ∧ ∀ p ∈ s.machine.mask.ones,
          (t.machine.pools.value slot).get type.storage p = element p)
      fun _ _ => False := by
  unfold Ends produce
  generalize hdetail : Detail.joinAll (slots.map (·.detail)) = detail
  have hargs : slots.map (s.machine.pools.allocate type detail s.machine.gridSize).2.value =
      slots.map s.machine.pools.value :=
    List.map_congr_left fun slot hslot => haccounts.value_allocate (by simp [hslot]) ..
  have hshape := haccounts.isShaped_allocate type detail s.machine.gridSize
  rw [produceAs_eq]
  dsimp only
  rw [hargs, hfill _ rfl hshape.storage]
  refine ⟨_, rfl, rfl, rfl, fun p hp => ?_⟩
  have hnew := Machine.value_put_new haccounts type detail (((s.machine.pools.allocate type detail
    s.machine.gridSize).2.value (s.machine.pools.allocate type detail s.machine.gridSize).1).write
      type.storage s.machine.mask element).data
  refine (congrArg (fun v : Value => v.get type.storage p) hnew).trans ?_
  refine (hshape.get_write s.machine.mask element hp (hmask p hp)).trans ?_
  split
  · rename_i huni
    refine huniform (fun slot hslot => ?_) p
    exact Detail.joinAll_eq_uniform_iff.mp (hdetail.trans huni) _ (List.mem_map_of_mem hslot)
  · rfl

variable {f : MathFunction} {type : ValueType}
  {curve : Float32 → List type.storage.Elem → type.storage.Elem} {parameter : Slot}
  {knots rest : List Slot}

/-- Filling the result of a spline, whose operands have the storages that it asks for. -/
theorem fill_spline (op : String) (hf : f.curve? = some ⟨type, curve⟩) {t : Value}
    (vs : List Value) (ht : t.data.storage = .float)
    (hvs : ∀ v ∈ vs, v.data.storage = type.storage) :
    ∃ e, f.spline? vs.length = some e ∧ e.type = type ∧ ∀ (out : Value) (mask : Mask),
      out.data.storage = type.storage → e.fill op (t :: vs) out mask =
        .ok (out.write type.storage mask fun p =>
          curve (t.getFloat p) (vs.map fun v => v.get type.storage p)) := by
  refine ⟨_, MathFunction.spline?_of_curve? hf vs.length, rfl, fun out mask hout => ?_⟩
  have hcheck : Elementwise.checkOperands op (.float :: .replicate vs.length type.storage)
      (t :: vs) = .ok () := by
    rw [Elementwise.checkOperands, if_pos ht, Elementwise.checkOperands_replicate op hvs]
  unfold Elementwise.fill
  dsimp only
  rw [hcheck, if_neg (not_not.mpr hout)]
  refine congrArg (fun g => Except.ok (out.write type.storage mask g)) (funext fun p => ?_)
  exact Curried.applyAt_ofList (curve (t.getFloat p)) vs p

/-- The operands are taken in the order in which they were pushed. -/
theorem take_knots (h : s.HoldsKnots type parameter knots rest) : ∃ t u : Session ε,
    popCount i s = .ok knots.length t ∧ pop i (knots.length + 1) t = .ok (parameter :: knots) u ∧
      u.machine.stack = rest ∧ u.machine.mask = s.machine.mask ∧
      u.machine.gridSize = s.machine.gridSize ∧
      u.machine.pools.value = s.machine.pools.value ∧
      u.machine.pools.Accounts ((parameter :: knots : List Slot) + rest) := by
  obtain ⟨count, hstack, hfloat, hcount⟩ := h.stack
  have haccounts : s.machine.pools.Accounts
      ([count] + ((parameter :: knots : List Slot) + rest) : Multiset Slot) := by
    have hslots : ([count] + ((parameter :: knots : List Slot) + rest) : Multiset Slot) =
        s.machine.stack := by
      rw [hstack, Multiset.coe_add, Multiset.coe_add, Multiset.coe_eq_coe]
      refine .cons count (.trans ?_ List.perm_middle.symm)
      exact .cons parameter (.append_right rest (List.reverse_perm knots).symm)
    rw [hslots]
    exact h.accounts
  have hpop := pop_run (i := i) (knots.reverse ++ [parameter])
    (s := { s with machine := { s.machine with
      stack := knots.reverse ++ parameter :: rest, pools := s.machine.pools.releaseAll [count] } })
    (List.append_cons knots.reverse parameter rest)
  rw [List.length_append, List.length_reverse, List.length_singleton, List.reverse_append,
    List.reverse_reverse, List.reverse_singleton, List.singleton_append] at hpop
  exact ⟨_, _, popCount_run hstack hfloat hcount (by simp), hpop, rfl, rfl, rfl,
    funext fun slot => Pools.value_releaseAll .., haccounts.releaseAll⟩

theorem ends_spline (hf : f.curve? = some ⟨type, curve⟩)
    (h : s.HoldsKnots type parameter knots rest) :
    Ends (spline i f) s
      (fun _ t => ∃ slot, t.machine.stack = slot :: rest ∧ slot.type = type ∧
        slot.detail = .joinAll ((parameter :: knots).map (·.detail)) ∧
        ∀ p ∈ s.machine.mask.ones, (t.machine.pools.value slot).get type.storage p =
          curve ((s.machine.pools.value parameter).getFloat p)
            (knots.map fun slot => (s.machine.pools.value slot).get type.storage p))
      fun _ _ => False := by
  obtain ⟨t, u, hcount, hpop, hstack, hmask, hgrid, hvalue, haccounts⟩ := take_knots (i := i) h
  obtain ⟨e, he, rfl, hfill⟩ := fill_spline i.name hf (knots.map s.machine.pools.value) h.parameter
    (by simpa using h.knots)
  rw [List.length_map] at he
  simp only [List.map_map] at hfill
  have huniform (hall : ∀ slot ∈ parameter :: knots, slot.detail = .uniform) (p : Nat) :
      curve ((s.machine.pools.value parameter).getFloat 0)
          (knots.map fun slot => (s.machine.pools.value slot).get e.type.storage 0) =
        curve ((s.machine.pools.value parameter).getFloat p)
          (knots.map fun slot => (s.machine.pools.value slot).get e.type.storage p) := by
    have hget {slot : Slot} (hslot : slot ∈ parameter :: knots) (st : Storage) :
        (s.machine.pools.value slot).get st 0 = (s.machine.pools.value slot).get st p :=
      Value.get_of_uniform (hall slot hslot) st 0 p
    rw [Value.getFloat, hget List.mem_cons_self,
      List.map_congr_left fun slot hslot => hget (List.mem_cons_of_mem _ hslot) _]
    rfl
  have hproduce (host : Host ε) := ends_produce (s := ⟨u.machine, host⟩) e.type
    (parameter :: knots) (e.fill i.name)
    (fun p => curve ((s.machine.pools.value parameter).getFloat p)
      (knots.map fun slot => (s.machine.pools.value slot).get e.type.storage p))
    (by rwa [hstack])
    (by
      rw [hmask, hgrid]
      exact h.mask)
    (fun out _ hout => by
      rw [hvalue]
      exact hfill out _ hout)
    huniform
  simp only [hstack, hmask] at hproduce
  unfold spline
  refine ends_bind.mpr (ends_of_ok hcount (ends_bind.mpr (ends_of_ok hpop ?_)))
  dsimp only
  rw [he]
  split
  · exact ends_bind.mpr (hproduce _)
  · exact hproduce _

theorem dispatch_spline [Environment ε] (hcode : i.code = .math f)
    (hf : f.curve? = some ⟨type, curve⟩) (h : s.HoldsKnots type parameter knots rest) :
    ∃ t slot, dispatch i s = .ok none t ∧ t.machine.stack = slot :: rest ∧ slot.type = type ∧
      slot.detail = .joinAll ((parameter :: knots).map (·.detail)) ∧
      ∀ p ∈ s.machine.mask.ones, (t.machine.pools.value slot).get type.storage p =
        curve ((s.machine.pools.value parameter).getFloat p)
          (knots.map fun slot => (s.machine.pools.value slot).get type.storage p) := by
  have hrule : i.code.rule? = none := by
    rw [hcode]
    exact MathFunction.rule?_of_curve? hf
  have hends : Ends (dispatch i) s (fun r t => r = none ∧ ∃ slot, t.machine.stack = slot :: rest ∧
      slot.type = type ∧ slot.detail = .joinAll ((parameter :: knots).map (·.detail)) ∧
      ∀ p ∈ s.machine.mask.ones, (t.machine.pools.value slot).get type.storage p =
        curve ((s.machine.pools.value parameter).getFloat p)
          (knots.map fun slot => (s.machine.pools.value slot).get type.storage p))
      fun _ _ => False := by
    unfold dispatch
    rw [hrule, hcode]
    exact ends_bind.mpr ((ends_spline hf h).imp (fun _ _ ht => ⟨rfl, ht⟩) fun _ _ hf => hf)
  obtain ⟨_, t, hrun, rfl, slot, ht⟩ := hends.exists_ok
  exact ⟨t, slot, hrun, ht⟩

end Exec

open Formula in
/-- Over exact rationals the curve of four or more knots goes through them without a break or a bend.
It is computed from four knots of the list, of whatever numbers they are. A spline opcode computes at
each active point the curve of the knots that are there at that point, in the order in which they were
pushed. -/
theorem spline_interpolates :
    (∀ knots : List ℚ, 4 ≤ knots.length → Interpolates knots) ∧
    (∀ (α : Type) [Scalar α] (t : α) (knots : List α), 4 ≤ knots.length →
      let x := splineParameter knots.length t
      let k := splineSegment knots.length x
      k + 4 ≤ knots.length ∧ ∃ a b c d, knots[k]? = some a ∧ knots[k + 1]? = some b ∧
        knots[k + 2]? = some c ∧ knots[k + 3]? = some d ∧
        spline t knots = splinePiece a b c d (x - Scalar.fromNat k)) ∧
    ∀ (ε : Type) [Environment ε] (s : Session ε) (i : Instruction) (f : MathFunction)
      (type : ValueType) (curve : Float32 → List type.storage.Elem → type.storage.Elem)
      (parameter : Slot) (knots rest : List Slot), i.code = .math f →
      f.curve? = some ⟨type, curve⟩ → s.HoldsKnots type parameter knots rest →
      ∃ t slot, Exec.dispatch i s = .ok none t ∧ t.machine.stack = slot :: rest ∧
        slot.type = type ∧ slot.detail = .joinAll ((parameter :: knots).map (·.detail)) ∧
        ∀ p ∈ s.machine.mask.ones, (t.machine.pools.value slot).get type.storage p =
          curve ((s.machine.pools.value parameter).getFloat p)
            (knots.map fun slot => (s.machine.pools.value slot).get type.storage p) :=
  ⟨fun _ h => interpolates h, fun _ _ t _ h => exists_splinePiece t h,
    fun _ _ _ _ _ _ _ _ _ _ hcode hf h => Exec.dispatch_spline hcode hf h⟩

/-- Four knots make one piece, from the second to the third. The third of them varies over a grid of
two points. -/
theorem spline_interpolates_four_knots :
    let m := (Machine.fresh ⟨.surface, "1", ⟨0⟩, #[], .empty, .empty⟩ .standard).resizeGrid 2
    let single (x : Float32) : Value := ⟨.float, .uniform, ⟨.float, #[x]⟩⟩
    let pair (x y : Float32) : Value := ⟨.float, .varying, ⟨.float, #[x, y]⟩⟩
    let s : Session Grid := ⟨m.putAll [single 1, single 0, single 1, pair 4 5, single 9, single 4],
      .fresh 1 0, #[]⟩
    Formula.spline 0 [0, 1, 4, 9] = (1 : ℚ) ∧ Formula.spline 1 [0, 1, 4, 9] = (4 : ℚ) ∧
    ∃ t slot, Exec.dispatch ⟨"fspline", .math .floatSpline, 0, []⟩ s = .ok none t ∧
      t.machine.stack = [slot] ∧ slot.detail = .varying ∧
      (t.machine.pools.value slot).get .float 0 = Formula.spline 1 [0, 1, 4, 9] ∧
      (t.machine.pools.value slot).get .float 1 = Formula.spline 1 [0, 1, 5, 9] := by
  intro m single pair s
  obtain ⟨hcurve, -, hopcode⟩ := spline_interpolates
  have hknots := hcurve [0, 1, 4, 9] (by decide)
  have hfirst := hknots.through 0 (by decide)
  have hlast := hknots.through 1 (by decide)
  have hends : Formula.joint [0, 1, 4, 9] 0 = 0 ∧ Formula.joint [0, 1, 4, 9] 1 = 1 := by
    simp [Formula.joint]
  rw [hends.1] at hfirst
  rw [hends.2] at hlast
  let slot (detail : Detail) (k : Nat) : Slot := ⟨.float, detail, k⟩
  have hm : m.Accounts := Machine.closed_accounts.resize 2 (Machine.Reached.fresh.accounts)
  have hs : s.HoldsKnots .float (slot .uniform 0)
      [slot .uniform 1, slot .uniform 2, slot .varying 0, slot .uniform 3] [] :=
    { accounts := hm.putAll _
      mask := by decide +kernel
      stack := ⟨slot .uniform 4, by decide +kernel, by decide +kernel, by decide +kernel⟩
      parameter := by decide +kernel
      knots := by decide +kernel }
  have hvalues : ([slot .uniform 0, slot .uniform 1, slot .uniform 2, slot .varying 0,
      slot .uniform 3].map s.machine.pools.value) =
      [single 1, single 0, single 1, pair 4 5, single 9] := by decide +kernel
  have hones : s.machine.mask.ones = [0, 1] := by decide +kernel
  clear_value s
  simp only [List.map_cons, List.map_nil, List.cons.injEq, and_true] at hvalues
  obtain ⟨h₀, h₁, h₂, h₃, h₄⟩ := hvalues
  obtain ⟨t, result, hrun, hstack, -, hdetail, hvalue⟩ :=
    hopcode Grid s ⟨"fspline", .math .floatSpline, 0, []⟩ .floatSpline .float Formula.spline _ _ _
      rfl rfl hs
  simp only [hones, h₀, h₁, h₂, h₃, h₄, List.map_cons, List.map_nil] at hvalue
  exact ⟨(Option.some.inj hfirst).symm, (Option.some.inj hlast).symm, t, result, hrun, hstack,
    hdetail, hvalue 0 (by simp), hvalue 1 (by simp)⟩

end ShadingMachine
