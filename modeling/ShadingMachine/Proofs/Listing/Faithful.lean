import ShadingMachine.Proofs.Listing.RoundTrip

/-! Which programs have a faithful listing: of those whose text can say all of them, the well-formed
ones. It is not enough that every operand is of its kind, since an opcode that needs an array is not
read back with a variable of the graphics state. -/
namespace ShadingMachine

/-- An operand that fits, or a variable of the graphics state in the place of any variable. -/
def Element.FitsKind (ds : Array Declaration) (isLabel : Element → Prop) (code : Opcode)
    (kind : OperandKind) (e : Element) : Prop :=
  e.Fits ds isLabel code kind ∨
    kind = .variable ∧ ∃ x, e = .variable (.graphics x) ∧ ∀ d ∈ ds, d.name ≠ x.name

/-- A segment whose instructions have operands of their kinds, and whose labels can be told apart
and stand in order, each at an opcode or at the end. -/
structure Segment.FormedByKind (ds : Array Declaration) (s : Segment) : Prop where
  instructions : Instructions (Element.FitsKind ds s.HasLabel) s.elements.toList
  distinct : (s.labels.map (·.id)).Nodup
  ascending : (s.labels.map (·.position)).Pairwise (· ≤ ·)
  startsAt : ∀ l ∈ s.labels, s.StartsAt l.position

theorem Segment.formedByKind_empty (ds : Array Declaration) : empty.FormedByKind ds where
  instructions := .nil
  distinct := List.nodup_nil
  ascending := .nil
  startsAt _ hl := by cases hl

structure Program.FormedByKind (p : Program) : Prop where
  names : (p.locals.toList.map (·.name)).Nodup
  lengths : ∀ d ∈ p.locals, ∀ n, d.arrayLength = some n → 1 ≤ n
  segment : ∀ kind, (p.segment kind).FormedByKind p.locals

namespace Program

/-- Of the programs whose text can say all of them, the well-formed ones and no others are read
back from their listing. -/
theorem load_listing_iff (p : Program) (hl : p.Listable) :
    (load p.listing.toList).1 = .ok p ↔ p.WellFormed :=
  ⟨wellFormed_of_load, fun hp => load_listing p hp hl⟩

/-- Stores into an array, over and over. -/
def storing : Program where
  kind := .surface
  version := "1"
  uses := ⟨0⟩
  locals := #[⟨"a", .float, .varying, true, false, some 2⟩]
  init := .empty
  code := ⟨#[.opcode "pushif" ⟨.pushFloat, [.float]⟩, .float (-1.5e-9),
    .opcode "pushif" ⟨.pushFloat, [.float]⟩, .float 1,
    .opcode "ipop" ⟨.popElement, [.variable]⟩, .variable (.declared 0),
    .opcode "jmp" ⟨.flow .jump, [.label]⟩, .label ⟨7, 0⟩], [⟨7, 0⟩, ⟨3, 8⟩]⟩

theorem isVersion_one : IsVersion "1" := by
  have hone : "1".toList = ['1'] := rfl
  refine ⟨by decide, by decide, ?_, by decide +kernel⟩
  rw [hone, List.forall_mem_singleton]
  decide

theorem wellFormed_storing : storing.WellFormed where
  names := by decide
  lengths d hd n hn := by
    obtain rfl := Array.mem_singleton.mp hd
    cases hn
    decide
  init := Segment.wellFormed_empty _
  code := by
    have hi : Instructions (Element.Fits storing.locals storing.code.HasLabel)
        storing.code.elements.toList := by
      refine @Instructions.cons _ "pushif" _ [_] _ rfl (.cons trivial .nil) ?_
      refine @Instructions.cons _ "pushif" _ [_] _ rfl (.cons trivial .nil) ?_
      refine @Instructions.cons _ "ipop" _ [_] _ rfl (.cons ⟨_, rfl, rfl⟩ .nil) ?_
      exact @Instructions.cons _ "jmp" _ [_] [] rfl (.cons ⟨⟨7, 0⟩, rfl, rfl⟩ .nil) .nil
    exact {
      instructions := hi
      distinct := by decide
      ascending := by decide
      boundary := fun l hl => by
        rcases List.mem_cons.mp hl with rfl | hl
        · exact ⟨by decide, hi⟩
        · rw [List.mem_singleton.mp hl]
          exact ⟨by decide, .nil⟩ }

theorem listable_storing : storing.Listable where
  version := isVersion_one
  uses := by decide
  names := by decide
  lengths := by decide
  elements kind := by
    cases kind with
    | init => simp [storing, segment, Segment.empty]
    | code =>
      have hsmall : (-1.5e-9 : Float32).isFinite = true := by decide
      have hone : (1 : Float32).isFinite = true := by decide
      simp [storing, segment, Element.Listable, hsmall, hone]
  ids kind := by cases kind <;> decide

theorem load_listing_storing :
    storing.Listable ∧ (load storing.listing.toList).1 = .ok storing :=
  ⟨listable_storing, (load_listing_iff storing listable_storing).mpr wellFormed_storing⟩

/-- Reads an element of a color of the graphics state, as if that were an array. -/
def indexingColor : Program where
  kind := .surface
  version := "1"
  uses := ⟨0⟩
  locals := #[]
  init := .empty
  code := ⟨#[.opcode "ipushv" ⟨.pushElement, [.variable]⟩, .variable (.graphics .surfaceColor)], []⟩

theorem formedByKind_indexingColor : indexingColor.FormedByKind where
  names := List.nodup_nil
  lengths := by simp [indexingColor]
  segment kind := by
    cases kind with
    | init => exact Segment.formedByKind_empty _
    | code => exact {
      instructions := @Instructions.cons _ "ipushv" _ [_] [] rfl
        (.cons (.inr ⟨rfl, _, rfl, by simp [indexingColor]⟩) .nil) .nil
      distinct := List.nodup_nil
      ascending := .nil
      startsAt := fun _ hl => by cases hl }

theorem listable_indexingColor : indexingColor.Listable where
  version := isVersion_one
  uses := by decide
  names := by simp [indexingColor]
  lengths := by simp [indexingColor]
  elements kind := by cases kind <;> simp [indexingColor, segment, Segment.empty, Element.Listable]
  ids kind := by cases kind <;> simp [indexingColor, segment, Segment.empty]

theorem not_wellFormed_indexingColor : ¬indexingColor.WellFormed := by
  intro h
  have hi : Instructions (Element.Fits #[] indexingColor.code.HasLabel)
      indexingColor.code.elements.toList := h.code.instructions
  generalize hes : indexingColor.code.elements.toList = es at hi
  cases hi with
  | nil => cases hes
  | cons _ ho _ =>
    obtain ⟨hopcode, htail⟩ := List.cons.inj hes
    cases hopcode
    obtain ⟨e, es, he, -, rfl⟩ := List.forall₂_cons_left_iff.mp ho
    cases (List.cons.inj htail).1
    cases he.1

/-- Operands of the right kinds are not enough. -/
theorem load_listing_indexingColor : indexingColor.FormedByKind ∧ indexingColor.Listable ∧
    (load indexingColor.listing.toList).1 ≠ .ok indexingColor :=
  ⟨formedByKind_indexingColor, listable_indexingColor,
    fun h => not_wellFormed_indexingColor (wellFormed_of_load h)⟩

end Program

end ShadingMachine
