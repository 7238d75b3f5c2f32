import ShadingMachine.Proofs.Listing.RoundTrip
import ShadingMachine.Proofs.Loading.Origin
import ShadingMachine.Proofs.Text.Endings

/-! A program that was loaded is read back from its listing, if its floats are finite and its
version stands by itself. A number of the text may be too large for a float, and the line of the version may
be cut within a string, at a comment sign or at an escaped newline: the listing of such a program
does not load. -/
namespace ShadingMachine

open Text

namespace Text

variable {c : Char} {cs : List Char}

theorem isPlain_unifyFrom (pos : Nat) (cs : List Char) : ∀ c ∈ (unifyFrom pos cs).1, IsPlain c := by
  rw [unifyFrom_fst]
  fun_induction unified cs with
  | case1 => simp
  | case2 cs ih | case3 cs _ ih => exact List.forall_mem_cons.mpr ⟨by decide, ih⟩
  | case4 c cs _ hreturn ih =>
    have hplain : plainChar c ≠ '\r' := by
      rwa [Ne, plainChar_eq_iff (by decide) (by decide)]
    exact List.forall_mem_cons.mpr ⟨⟨hplain, plainChar_ne_nul c⟩, ih⟩

theorem isPlain_unifyLineEndings (cs : List Char) :
    ∀ c ∈ (unifyLineEndings cs).1, IsPlain c := by
  unfold unifyLineEndings
  split <;> exact isPlain_unifyFrom 0 _

/-- A word is a letter or an underscore and what may follow in a name. -/
theorem piece_word (h : (piece c cs).1 = .token .word) :
    isNameStart c = true ∧ (piece c cs).2.1 = c :: cs.takeWhile isNamePart := by
  unfold piece numberPiece at h ⊢
  dsimp only at h ⊢
  split_ifs at h ⊢ with _ _ _ _ _ _ _ _ _ hstart
  all_goals first | exact ⟨hstart, rfl⟩ | cases h

theorem isName_of_piece (h : (piece c cs).1 = .token .word) :
    isName (String.ofList (piece c cs).2.1) = true := by
  obtain ⟨hstart, hused⟩ := piece_word h
  rw [hused]
  unfold isName
  rw [String.toList_ofList]
  exact Bool.and_eq_true_iff.mpr
    ⟨hstart, List.all_eq_true.mpr fun d hd => List.mem_takeWhile_imp hd⟩

/-- A token is made of characters of the text, and a word is a name. -/
theorem token_of_mem_scanFrom (pos : Nat) (cs : List Char) : ∀ t ∈ (scanFrom pos cs).1,
    (t.kind = .word → isName t.text = true) ∧ ∀ c ∈ t.text.toList, c ∈ cs := by
  fun_induction scanFrom pos cs with
  | case1 pos => simp
  | case2 pos c cs next tokens faults hnext kind hkind ih =>
    rw [hnext] at ih
    have happend := piece_append c cs
    refine List.forall_mem_cons.mpr ⟨⟨fun hword => isName_of_piece ?_, fun d hd => ?_⟩, ?_⟩
    · rw [hkind, ← hword]
    · rw [String.toList_ofList] at hd
      exact happend ▸ List.mem_append_left _ hd
    · exact fun t ht => ⟨(ih t ht).1, fun d hd =>
        happend ▸ List.mem_append_right _ ((ih t ht).2 d hd)⟩
  | case3 pos c cs next tokens faults hnext _ _ ih | case4 pos c cs next tokens faults hnext _ ih =>
    rw [hnext] at ih
    have happend := piece_append c cs
    exact fun t ht => ⟨(ih t ht).1, fun d hd =>
      happend ▸ List.mem_append_right _ ((ih t ht).2 d hd)⟩

theorem not_mem_unescape (hc : c ∉ ['\n', '\r', '\t', '\\', '"']) (h : c ∉ cs) :
    c ∉ Quoted.unescape cs := by
  fun_induction Quoted.unescape cs with
  | case1 => simp
  | case2 d cs e he ih =>
    have hcs : c ∉ cs := fun hm => h (by simp [hm])
    have hne : c ≠ e := by
      rintro rfl
      refine hc ?_
      unfold Quoted.escapeMeaning? at he
      split at he <;> cases he <;> simp
    simpa [hne] using ih hcs
  | case3 d cs he ih =>
    simp only [List.mem_cons, not_or] at h ⊢
    exact ⟨h.1, h.2.1, ih h.2.2⟩
  | case4 d cs _ ih =>
    simp only [List.mem_cons, not_or] at h ⊢
    exact ⟨h.1, ih h.2⟩

/-- The characters of a string that is read are those of its token and of the escapes. -/
theorem not_mem_unquote (hc : c ∉ ['\n', '\r', '\t', '\\', '"']) (h : c ∉ cs) :
    c ∉ Quoted.unquote cs := by
  unfold Quoted.unquote
  split
  · split
    · exact not_mem_unescape hc fun hm =>
        h (List.mem_cons_of_mem _ ((List.dropLast_sublist _).mem hm))
    · exact h
  · exact h

end Text

/-- Whatever is no float, and the floats that have a numeral. -/
def Element.isFinite : Element → Bool
  | .float x => x.isFinite
  | _ => true

namespace Program

variable {text : List Char} {p : Program}

theorem listable_element {tokens : List Token} {kind : SegmentKind}
    (hplain : ∀ t ∈ tokens, ∀ c ∈ t.text.toList, IsPlain c) (hp : p.SpelledIn kind tokens)
    (hfinite : ∀ e ∈ (p.segment kind).elements, e.isFinite = true) :
    ∀ e ∈ (p.segment kind).elements, e.Listable p.locals := by
  intro e he
  rcases hp with hempty | ⟨before, word, name, body, after, rfl, -, -, -, hspells⟩
  · rw [hempty] at he
    exact absurd he (Array.not_mem_empty e)
  · obtain ⟨t, ht, hspelled, hend⟩ := hspells.exists_token (Array.mem_toList_iff.mpr he)
    cases e with
    | float x => exact hfinite _ he
    | string s =>
      obtain ⟨-, rfl⟩ := hspelled
      show '\x00' ∉ (String.ofList _).toList
      rw [String.toList_ofList]
      exact not_mem_unquote (by decide) fun hnul => (hplain t (by simp [ht]) _ hnul).2 rfl
    | «variable» ref =>
      cases ref with
      | graphics x => trivial
      | declared k =>
        obtain ⟨hword, hindex⟩ := hspelled
        obtain ⟨d, hd, hname⟩ := Loader.getElem?_of_localIndex? hindex
        intro d' hd' hsegment
        rw [hd] at hd'
        cases hd'
        rw [hname] at hsegment
        simp [Loader.endsSegment, Token.lexeme, hword, hsegment] at hend
    | _ => trivial

theorem label_lt {tokens : List Token} {kind : SegmentKind} (hp : p.SpelledIn kind tokens) :
    ∀ l ∈ (p.segment kind).labels, l.id < 0x100000000 := by
  rcases hp with hempty | ⟨before, word, name, body, after, -, -, -, -, hspells⟩
  · rw [hempty]
    exact fun l hl => by cases hl
  · exact hspells.labelId_lt

/-- The text of a listing can say whatever the text of a program can, but for what has no text:
floats that are not finite, and a version that is cut off. -/
theorem listable_of_load (h : (load text).1 = .ok p)
    (hfinite : ∀ kind, ∀ e ∈ (p.segment kind).elements, e.isFinite = true)
    (hversion : (scan p.version.toList).2 = []) : p.Listable := by
  obtain ⟨hread, -⟩ := readFrom_of_load h
  have htokens := token_of_mem_scanFrom 0 (unifyLineEndings text).1
  have hplain := isPlain_unifyLineEndings text
  refine ⟨⟨hread.version.nonempty, hread.version.trimmed, fun c hc => ?_, hversion⟩, hread.uses,
    fun d hd => ?_, fun d hd => (hread.locals d hd).length, fun kind => ?_,
    fun kind => label_lt (hread.segment kind)⟩
  · obtain ⟨hmem, hnewline, hcomment⟩ := hread.version.line c hc
    obtain ⟨hreturn, hnul⟩ := hplain c hmem
    simp [hnewline, hreturn, hnul, hcomment]
  · obtain ⟨t, ht, hlexeme⟩ := (hread.locals d hd).name
    obtain ⟨hkind, hname⟩ := Loader.kind_of_lexeme hlexeme
    exact hname ▸ (htokens t ht).1 hkind
  · exact listable_element (fun t ht c hc => hplain c ((htokens t ht).2 c hc))
      (hread.segment kind) (hfinite kind)

/-- A program that was loaded is read back from its listing. -/
theorem load_listing_of_load (h : (load text).1 = .ok p)
    (hfinite : ∀ kind, ∀ e ∈ (p.segment kind).elements, e.isFinite = true)
    (hversion : (scan p.version.toList).2 = []) : (load p.listing.toList).1 = .ok p :=
  load_listing p (wellFormed_of_load h) (listable_of_load h hfinite hversion)

/-- A version with a string, an escaped string and a negative float. -/
theorem load_listing_of_load_quoted :
    let text := ("surface\nAQSIS_V \"1 : 0\" # first\nUSES 3\nsegment Code\n" ++
      "pushis \"a\\\"b\\n\"\ndrop\n:1\npushif -2.5e-3\nRS_JZ 1\n").toList
    ∃ p, (load text).1 = .ok p ∧ (∀ kind, ∀ e ∈ (p.segment kind).elements, e.isFinite = true) ∧
      (scan p.version.toList).2 = [] ∧ (load p.listing.toList).1 = .ok p := by
  intro text
  have hloads : (load text).1.toOption.map (fun p =>
      (p.init.elements.all Element.isFinite, p.code.elements.all Element.isFinite,
        (scan p.version.toList).2.isEmpty)) = some (true, true, true) := by decide +kernel
  cases hp : (load text).1 with
  | error e =>
    rw [hp] at hloads
    cases hloads
  | ok p =>
    rw [hp] at hloads
    simp only [Except.toOption, Option.map_some, Option.some.injEq, Prod.mk.injEq,
      Array.all_eq_true_iff_forall_mem, List.isEmpty_iff] at hloads
    obtain ⟨hinit, hcode, hversion⟩ := hloads
    have hfinite (kind : SegmentKind) : ∀ e ∈ (p.segment kind).elements, e.isFinite = true := by
      cases kind with
      | init => exact hinit
      | code => exact hcode
    exact ⟨p, rfl, hfinite, hversion, load_listing_of_load hp hfinite hversion⟩

/-- A program that loads, whose listing does not load as that program. -/
def LosesItself (text : List Char) : Prop :=
  ∃ p, (load text).1 = .ok p ∧ (load p.listing.toList).1 ≠ .ok p

theorem losesItself (h : ((load text).1.toOption.map fun p =>
    (load p.listing.toList).1.toOption.isNone) = some true) : LosesItself text := by
  unfold LosesItself
  cases hp : (load text).1 with
  | error e =>
    rw [hp] at h
    cases h
  | ok p =>
    rw [hp] at h
    refine ⟨p, rfl, fun hreload => ?_⟩
    simp [Except.toOption, hreload] at h

/-- A number that is too large for a float is listed as a word; and a version is cut at a comment
sign, though that stands in a string. -/
theorem losesItself_overflow_version :
    LosesItself "surface\nAQSIS_V 1.0\nUSES 0\nsegment Code\n\tpushif 1e39\n\tdrop\n".toList ∧
    LosesItself "surface\nAQSIS_V \"a#b\"\nUSES 0\nsegment Code\n".toList :=
  ⟨losesItself (by decide +kernel), losesItself (by decide +kernel)⟩

end Program

end ShadingMachine
