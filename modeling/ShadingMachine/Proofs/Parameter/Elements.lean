import ShadingMachine.Proofs.Storage.Locals

/-! The elements that an argument is converted to. There is one for each complete element that is
supplied, all of the type of the parameter, and without a space their components are the supplied
ones. -/
namespace ShadingMachine

/-- The floats that an element is made of. -/
def Storage.components : (s : Storage) → s.Elem → List Float32
  | .float, x => [x]
  | .string, _ => []
  | .triple, x => x.toList
  | .color, x => x.toList
  | .matrix, x => x.toList

namespace Value

/-- The floats that the element at a point is made of. -/
def components (v : Value) (i : Nat) : List Float32 :=
  v.type.storage.components (v.get v.type.storage i)

theorem ofKind_single (type : ValueType) (x : type.storage.Elem) :
    (single type x).OfKind type .uniform 1 := by
  cases type <;> exact ⟨⟨rfl, rfl⟩, rfl, rfl⟩

theorem get_single (type : ValueType) (x : type.storage.Elem) (i : Nat) :
    (single type x).get type.storage i = x := by
  cases type <;> rfl

theorem components_single (type : ValueType) (x : type.storage.Elem) (i : Nat) :
    (single type x).components i = type.storage.components x :=
  congrArg type.storage.components (get_single type x i)

end Value

theorem length_of_mem_completePieces {α : Type} {n : Nat} {xs ys : List α}
    (h : ys ∈ completePieces n xs) : ys.length = n := by
  obtain ⟨k, hk, rfl⟩ := List.mem_map.mp h
  have hle : (k + 1) * n ≤ xs.length :=
    (Nat.mul_le_mul_right n (List.mem_range.mp hk)).trans (Nat.div_mul_le_self ..)
  rw [Nat.add_mul, Nat.one_mul] at hle
  rw [List.length_take, List.length_drop]
  omega

theorem length_completePieces {α : Type} (n : Nat) (xs : List α) :
    (completePieces n xs).length = xs.length / n := by
  rw [completePieces, List.length_map, List.length_range]

namespace Argument

/-- The number of complete elements that are supplied. -/
def count (type : ValueType) : Argument → Nat
  | floats xs => xs.length / type.floatCount
  | strings xs => xs.length

/-- What an argument is converted to. -/
structure Converts (arg : Argument) (type : ValueType) (space : Option String)
    (values : List Value) : Prop where
  ofKind : ∀ x ∈ values, x.OfKind type .uniform 1
  length : values.length = arg.count type
  floats : ∀ xs, arg = .floats xs → foreignSpace? space = none →
    values.map (·.components 0) = completePieces type.floatCount xs
  strings : ∀ xs, arg = .strings xs → values.map (·.getString 0) = xs

variable {type : ValueType} {space : Option String} {v : Value} {xs : List Float32}

theorem ofKind_of_element {m? : Option (Mat4 Float32)} (h : element type space m? xs = .ok v) :
    v.OfKind type .uniform 1 := by
  unfold element at h
  cases type with
  | color =>
    cases hrgb : rgb? space (.ofTriple ⟨xs.getD 0 0, xs.getD 1 0, xs.getD 2 0⟩) with
    | error e =>
      simp only [hrgb] at h
      cases h
    | ok c =>
      simp only [hrgb] at h
      cases h
      exact Value.ofKind_single .color c
  | string =>
    cases h
    exact Value.ofKind_fresh .string .uniform
  | float | point | vector | normal | matrix =>
    cases h
    exact Value.ofKind_single ..

theorem rgb?_of_foreignSpace? (h : foreignSpace? space = none) (c : Color Float32) :
    rgb? space c = .ok c := by
  unfold rgb?
  rw [h]
  rfl

/-- Without a space the components are taken as they are. -/
theorem components_of_element (htype : type ≠ .string) (hspace : foreignSpace? space = none)
    (hlength : xs.length = type.floatCount) (h : element type space none xs = .ok v) :
    v.components 0 = xs := by
  unfold element at h
  cases type with
  | string => exact absurd rfl htype
  | float =>
    obtain ⟨x, rfl⟩ := List.length_eq_one_iff.mp hlength
    cases h
    exact Value.components_single .float x 0
  | point | vector | normal =>
    obtain ⟨x, y, z, rfl⟩ := List.length_eq_three.mp hlength
    cases h
    exact Value.components_single _ _ 0
  | color =>
    obtain ⟨x, y, z, rfl⟩ := List.length_eq_three.mp hlength
    simp only [rgb?_of_foreignSpace? hspace] at h
    cases h
    exact Value.components_single .color _ 0
  | matrix =>
    match xs, hlength with
    | [_, _, _, _, _, _, _, _, _, _, _, _, _, _, _, _], _ =>
      cases h
      exact Value.components_single .matrix _ 0

variable {ε : Type} [Environment ε] {env : ε} {values : List Value} {arg : Argument}

theorem spaceMatrix?_of_foreignSpace? (h : foreignSpace? space = none) :
    spaceMatrix? env type space = .ok none := by
  unfold spaceMatrix?
  rw [h]
  cases type <;> rfl

theorem floats_of_elements (h : (floats xs).elements env type space = .ok values) :
    type ≠ .string ∧ ∃ m?, spaceMatrix? env type space = .ok m? ∧
      (completePieces type.floatCount xs).mapM (element type space m?) = .ok values := by
  rw [elements] at h
  dsimp only at h
  split at h
  · cases h
  rename_i htype
  split at h
  · cases h
  cases hm : spaceMatrix? env type space with
  | error e =>
    rw [hm] at h
    cases h
  | ok m? =>
    rw [hm] at h
    exact ⟨htype, m?, rfl, h⟩

theorem strings_of_elements {texts : List String}
    (h : (strings texts).elements env type space = .ok values) :
    type = .string ∧ values = texts.map (.single .string) := by
  rw [elements] at h
  split at h
  · rename_i htype
    cases h
    exact ⟨htype, rfl⟩
  · cases h

theorem length_of_mapM {α β δ : Type} {f : α → Except δ β} {xs : List α} {ys : List β}
    (h : xs.mapM f = .ok ys) : ys.length = xs.length := by
  have hlength (k : Nat) : xs.length ≤ k ↔ ys.length ≤ k := by
    have hk := getElem?_of_mapM h k
    rw [← List.getElem?_eq_none_iff, ← List.getElem?_eq_none_iff]
    generalize xs[k]? = x at hk ⊢
    generalize ys[k]? = y at hk ⊢
    cases hk <;> simp
  exact Nat.le_antisymm ((hlength _).mp le_rfl) ((hlength _).mpr le_rfl)

theorem converts_of_elements (h : arg.elements env type space = .ok values) :
    arg.Converts type space values := by
  cases arg with
  | strings texts =>
    obtain ⟨rfl, rfl⟩ := strings_of_elements h
    refine ⟨fun x hx => ?_, List.length_map .., ?_, fun xs hxs => ?_⟩
    · obtain ⟨text, -, rfl⟩ := List.mem_map.mp hx
      exact Value.ofKind_single .string text
    · intro xs hxs
      cases hxs
    · cases hxs
      exact List.map_map.trans (List.map_id texts)
  | floats xs =>
    obtain ⟨htype, m?, hm, hmap⟩ := floats_of_elements h
    refine ⟨fun x hx => ?_, (length_of_mapM hmap).trans (length_completePieces ..),
      fun ys hys hspace => ?_, ?_⟩
    · obtain ⟨k, hk⟩ := List.getElem?_of_mem hx
      have hrel := getElem?_of_mapM hmap k
      rw [hk] at hrel
      generalize (completePieces type.floatCount xs)[k]? = piece at hrel
      cases hrel with
      | some hpiece => exact ofKind_of_element hpiece
    · cases hys
      rw [spaceMatrix?_of_foreignSpace? hspace] at hm
      cases hm
      refine List.ext_getElem? fun k => ?_
      have hrel := getElem?_of_mapM hmap k
      rw [List.getElem?_map]
      cases hpiece : (completePieces type.floatCount xs)[k]? with
      | none =>
        rw [hpiece] at hrel
        generalize values[k]? = value at hrel ⊢
        cases hrel
        rfl
      | some piece =>
        rw [hpiece] at hrel
        generalize values[k]? = value at hrel ⊢
        cases hrel with
        | some hvalue =>
          exact congrArg some (components_of_element htype hspace
            (length_of_mem_completePieces (List.mem_of_getElem? hpiece)) hvalue)
    · intro texts htexts
      cases htexts

end Argument

end ShadingMachine
