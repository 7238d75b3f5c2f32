import ShadingMachine.Proofs.Text.Lines
import ShadingMachine.Proofs.Text.Pieces

/-! Reading a text by byte offsets. A cursor is only looked at between two characters of the text;
at an offset outside the text or inside a character there is no answer, and there is none for a
range that is not between characters or ends before it starts. -/
namespace ShadingMachine.Text

/-- The text from an offset on. -/
def from? (text : List Char) (n : Nat) : Option (List Char) :=
  if IsBoundary text n then some (dropBytes n text) else none

/-- The character at an offset, or nothing at the end. -/
def peek? (text : List Char) (n : Nat) : Option (Option Char) := (from? text n).map List.head?

section

variable {text used rest : List Char} {n : Nat}

theorem isBoundary_of_from? (h : from? text n = some rest) : IsBoundary text n := by
  unfold from? at h
  split at h
  · assumption
  · cases h

theorem takeBytes_append_of_from? (h : from? text n = some rest) :
    takeBytes n text ++ rest = text := by
  have hn := isBoundary_of_from? h
  rw [from?, if_pos hn] at h
  cases h
  exact takeBytes_append_dropBytes n text

theorem from?_byteSize (before rest : List Char) :
    from? (before ++ rest) (byteSize before) = some rest := by
  rw [from?, if_pos (isBoundary_byteSize (List.prefix_append ..)), dropBytes_byteSize_append]

/-- Where a text goes on behind some characters of it. -/
theorem from?_add (h : from? text n = some (used ++ rest)) :
    from? text (n + byteSize used) = some rest := by
  have hn : byteSize (takeBytes n text) = n := isBoundary_of_from? h
  have htext := takeBytes_append_of_from? h
  have hrest := from?_byteSize (takeBytes n text ++ used) rest
  rwa [byteSize_append, hn, List.append_assoc, htext] at hrest

theorem from?_of_append {cs : List Char} (h : from? text n = some cs)
    (happend : used ++ rest = cs) : from? text (n + byteSize used) = some rest := from?_add (happend ▸ h)

theorem from?_cons {c : Char} {cs : List Char} (h : from? text n = some (c :: cs)) :
    from? text (n + c.utf8Size) = some cs := @from?_add text [c] cs n h

theorem cut?_add (h : from? text n = some (used ++ rest)) :
    cut? text ⟨n, n + byteSize used⟩ = some used := by
  have hstart := isBoundary_of_from? h
  have hstop := isBoundary_of_from? (from?_add h)
  have hdrop : dropBytes n text = used ++ rest := by
    rw [from?, if_pos hstart] at h
    exact Option.some.inj h
  rw [cut?, if_pos ⟨Nat.le_add_right .., hstart, hstop⟩, hdrop, Nat.add_sub_cancel_left,
    takeBytes_byteSize_append]

theorem add_byteSize_of_from? (h : from? text n = some rest) :
    n + byteSize rest = byteSize text := by
  have hn : byteSize (takeBytes n text) = n := isBoundary_of_from? h
  rw [← takeBytes_append_of_from? h, byteSize_append, hn]

theorem le_of_from? (h : from? text n = some rest) : n ≤ byteSize text := by
  have := add_byteSize_of_from? h
  omega

theorem lt_of_peek? {c : Char} (h : peek? text n = some (some c)) : n < byteSize text := by
  obtain ⟨rest, hrest, hhead⟩ := Option.map_eq_some_iff.mp h
  obtain ⟨cs, rfl⟩ := List.head?_eq_some_iff.mp hhead
  have hsize := add_byteSize_of_from? hrest
  have hpos := c.utf8Size_pos
  rw [byteSize_cons] at hsize
  omega

theorem peek?_of_from? (h : from? text n = some rest) : peek? text n = some rest.head? := by
  rw [peek?, h]
  rfl

end

/-! Scanning. Characters are skipped by the number of their bytes, or by one byte each. -/

/-- Past the characters with a property that are to be one byte long. -/
def pastBytes? (text : List Char) (p : Char → Bool) (n : Nat) : Option Nat :=
  match h : peek? text n with
  | none => none
  | some none => some n
  | some (some c) => if p c then pastBytes? text p (n + 1) else some n
termination_by byteSize text - n
decreasing_by
  have := lt_of_peek? h
  omega

/-- To the end of the line. -/
def pastLine? (text : List Char) (n : Nat) : Option Nat :=
  match _h : peek? text n with
  | none => none
  | some none => some n
  | some (some c) => if c = '\n' then some n else pastLine? text (n + c.utf8Size)
termination_by byteSize text - n
decreasing_by
  have := lt_of_peek? _h
  have := c.utf8Size_pos
  omega

/-- To the end of a string whose opening quote has been taken, and whether it is closed. -/
def pastString? (text : List Char) (n : Nat) : Option (Bool × Nat) :=
  match _h : peek? text n with
  | none => none
  | some none => some (false, n)
  | some (some c) =>
    if c = '\n' then some (false, n)
    else if c = '"' then some (true, n + 1)
    else if c = '\\' then
      match peek? text (n + c.utf8Size) with
      | none => none
      | some none => some (false, n + c.utf8Size)
      | some (some d) => pastString? text (n + c.utf8Size + d.utf8Size)
    else pastString? text (n + c.utf8Size)
termination_by byteSize text - n
decreasing_by
  all_goals
    have := lt_of_peek? _h
    have := c.utf8Size_pos
    omega

def pastSign? (text : List Char) (n : Nat) : Option Nat := do
  let c ← peek? text n
  return if c = some '-' ∨ c = some '+' then n + 1 else n

def pastFraction? (text : List Char) (n : Nat) : Option Nat := do
  let c ← peek? text n
  if c = some '.' then pastBytes? text Char.isDigit (n + 1) else return n

/-- An exponent without digits is not taken. -/
def pastExponent? (text : List Char) (n : Nat) : Option Nat := do
  let c ← peek? text n
  if c = some 'e' ∨ c = some 'E' then
    let digits ← pastSign? text (n + 1)
    let stop ← pastBytes? text Char.isDigit digits
    return if stop = digits then n else stop
  else return n

def pastNumber? (text : List Char) (n : Nat) : Option Nat := do
  pastExponent? text (← pastFraction? text (← pastBytes? text Char.isDigit (← pastSign? text n)))

def numberPiece? (text : List Char) (n : Nat) : Option (Piece × Nat) := do
  let number ← pastNumber? text n
  let glued ← pastBytes? text isNamePart number
  if glued = number then return (.token .number, number)
  else return (.fault (.invalidNumber (String.ofList (← cut? text ⟨n, glued⟩))), glued)

/-- The piece at an offset where the text goes on with `c` and then `cs`, and its end. -/
def piece? (text : List Char) (n : Nat) (c : Char) (cs : List Char) : Option (Piece × Nat) :=
  if isBlank c then some (.gap, n + c.utf8Size)
  else if c = '#' then (pastLine? text n).map fun stop => (.gap, stop)
  else if c = ':' then some (.token .colon, n + 1)
  else if c = '[' then some (.token .leftBracket, n + 1)
  else if c = ']' then some (.token .rightBracket, n + 1)
  else if c = '"' then
    (pastString? text (n + 1)).map fun found =>
      (if found.1 then .token .string else .fault .unterminatedString, found.2)
  else if c.isDigit || startsNumber (c :: cs) then numberPiece? text n
  else if isNameStart c then
    (pastBytes? text isNamePart n).map fun stop => (.token .word, stop)
  else some (.fault (.unexpectedChar c), n + c.utf8Size)

/-- A range as it is kept, in two words of 32 bits. -/
def Span.kept (start stop : Nat) : Span := ⟨start % UInt32.size, stop % UInt32.size⟩

/-- The tokens and faults from an offset on; there are none if the cursor does not move on. -/
def scanAt? (text : List Char) (n : Nat) : Option (List Token × List Diagnostic) :=
  match from? text n with
  | none => none
  | some [] => do
    return ([⟨.endOfInput, String.ofList (← cut? text (.kept n n)), .kept n n⟩], [])
  | some (c :: cs) =>
    match piece? text n c cs with
    | none => none
    | some (piece, next) =>
      if n < next ∧ next ≤ byteSize text then do
        let (tokens, faults) ← scanAt? text next
        match piece with
        | .token kind =>
          let chars ← cut? text (.kept n next)
          return (⟨kind, String.ofList chars, .kept n next⟩ :: tokens, faults)
        | .fault cause => return (tokens, .ofCause .error cause (some (.kept n next)) :: faults)
        | .gap => return (tokens, faults)
      else none
termination_by byteSize text - n

/-! A cursor sees what a reading of the characters takes. -/

section

variable {text used rest cs : List Char} {c : Char} {n : Nat}

theorem utf8Size_eq_one (h : c.toNat ≤ 127) : c.utf8Size = 1 :=
  Char.utf8Size_eq_one_iff.mpr (UInt32.le_iff_toNat_le.mpr h)

theorem utf8Size_of_isDigit (h : c.isDigit = true) : c.utf8Size = 1 :=
  utf8Size_eq_one ((toNat_of_isDigit h).2.trans (by decide))

theorem utf8Size_of_isNamePart (h : isNamePart c = true) : c.utf8Size = 1 := by
  rcases Bool.or_eq_true_iff.mp h with h | h
  · have := toNat_of_isNameStart h
    exact utf8Size_eq_one (by omega)
  · exact utf8Size_of_isDigit h

theorem pastBytes?_eq (p : Char → Bool) (h : from? text n = some rest) :
    pastBytes? text p n = match rest with
      | [] => some n
      | c :: _ => if p c then pastBytes? text p (n + 1) else some n := by
  have hpeek := peek?_of_from? h
  rw [pastBytes?]
  split <;> rename_i heq <;> rw [hpeek] at heq <;> cases rest <;> cases heq <;> rfl

theorem pastBytes?_of_from? (p : Char → Bool) (hp : ∀ c, p c = true → c.utf8Size = 1)
    (h : from? text n = some rest) :
    pastBytes? text p n = some (n + byteSize (rest.takeWhile p)) := by
  induction rest generalizing n with
  | nil => rw [pastBytes?_eq p h]; rfl
  | cons c cs ih =>
    rw [pastBytes?_eq p h]
    dsimp only
    split
    · rename_i hc
      have hnext := from?_cons h
      rw [hp c hc] at hnext
      rw [ih hnext, List.takeWhile_cons_of_pos hc, byteSize_cons, hp c hc, Nat.add_assoc]
    · rename_i hc
      rw [List.takeWhile_cons_of_neg hc]
      rfl

theorem pastLine?_eq (h : from? text n = some rest) :
    pastLine? text n = match rest with
      | [] => some n
      | c :: _ => if c = '\n' then some n else pastLine? text (n + c.utf8Size) := by
  have hpeek := peek?_of_from? h
  rw [pastLine?]
  split <;> rename_i heq <;> rw [hpeek] at heq <;> cases rest <;> cases heq <;> rfl

theorem pastLine?_of_from? (h : from? text n = some rest) :
    pastLine? text n = some (n + byteSize (rest.takeWhile (· != '\n'))) := by
  induction rest generalizing n with
  | nil => rw [pastLine?_eq h]; rfl
  | cons c cs ih =>
    rw [pastLine?_eq h]
    dsimp only
    split
    · rename_i hc
      rw [List.takeWhile_cons_of_neg (by simp [hc])]
      rfl
    · rename_i hc
      rw [ih (from?_cons h), List.takeWhile_cons_of_pos (by simp [hc]), byteSize_cons,
        Nat.add_assoc]

theorem pastString?_eq (h : from? text n = some rest) :
    pastString? text n = match rest with
      | [] => some (false, n)
      | c :: cs =>
        if c = '\n' then some (false, n)
        else if c = '"' then some (true, n + 1)
        else if c = '\\' then
          match cs with
          | [] => some (false, n + c.utf8Size)
          | d :: _ => pastString? text (n + c.utf8Size + d.utf8Size)
        else pastString? text (n + c.utf8Size) := by
  have hpeek := peek?_of_from? h
  rw [pastString?]
  split <;> rename_i heq <;> rw [hpeek] at heq <;> cases rest <;> cases heq
  · rfl
  · rename_i c cs
    rw [peek?_of_from? (from?_cons h)]
    cases cs <;> rfl

theorem pastString?_of_from? (h : from? text n = some rest) :
    pastString? text n = some ((stringTail rest).1, n + byteSize (stringTail rest).2.1) := by
  rw [pastString?_eq h]
  fun_induction stringTail rest generalizing n with
  | case1 | case2 | case3 => rfl
  | case4 d cs closed used tail hrest ih =>
    have hescaped := from?_cons (from?_cons h)
    rw [hrest] at ih
    refine (pastString?_eq hescaped).trans ((ih hescaped).trans ?_)
    rw [Nat.add_assoc, Nat.add_assoc]
    rfl
  | case5 c cs hquote hline hslash closed used tail hrest ih =>
    rw [hrest] at ih
    dsimp only
    rw [if_neg hline, if_neg hquote]
    by_cases hc : c = '\\'
    · subst hc
      cases cs with
      | nil =>
        cases hrest
        rfl
      | cons d ds => exact absurd rfl (hslash d ds rfl)
    · have hnext := from?_cons h
      rw [if_neg hc, pastString?_eq hnext, ih hnext, byteSize_cons, Nat.add_assoc]

theorem pastSign?_of_from? (h : from? text n = some rest) :
    pastSign? text n = some (n + byteSize (signPart rest).1) := by
  unfold pastSign?
  rw [peek?_of_from? h]
  cases rest with
  | nil => rfl
  | cons c cs =>
    by_cases hminus : c = '-'
    · subst hminus
      rfl
    · by_cases hplus : c = '+'
      · subst hplus
        rfl
      · simp [signPart, hminus, hplus]

theorem pastDigits?_of_from? (h : from? text n = some rest) :
    pastBytes? text Char.isDigit n = some (n + byteSize (digitsPart rest).1) :=
  pastBytes?_of_from? Char.isDigit (fun _ => utf8Size_of_isDigit) h

theorem pastFraction?_of_from? (h : from? text n = some rest) :
    pastFraction? text n = some (n + byteSize (fractionPart rest).1) := by
  unfold pastFraction?
  rw [peek?_of_from? h]
  cases rest with
  | nil => rfl
  | cons c cs =>
    by_cases hpoint : c = '.'
    · subst hpoint
      simp only [Option.bind_eq_bind, Option.bind_some, List.head?_cons, if_true]
      refine (pastDigits?_of_from? (from?_cons h)).trans ?_
      rw [Nat.add_assoc]
      rfl
    · simp [fractionPart, hpoint]

theorem pastExponent?_of_from? (h : from? text n = some rest) :
    pastExponent? text n = some (n + byteSize (exponentPart rest).1) := by
  unfold pastExponent?
  rw [peek?_of_from? h]
  cases rest with
  | nil => rfl
  | cons c cs =>
    by_cases he : c = 'e' ∨ c = 'E'
    · have hsize : c.utf8Size = 1 := by rcases he with rfl | rfl <;> rfl
      have hsign := from?_cons h
      rw [hsize] at hsign
      have hdigits := from?_of_append hsign (signPart_append cs)
      simp only [Option.bind_eq_bind, Option.bind_some, List.head?_cons, Option.some.injEq, he,
        if_true, pastSign?_of_from? hsign, pastDigits?_of_from? hdigits]
      by_cases hnone : (digitsPart (signPart cs).2).1 = []
      · rw [hnone, byteSize_nil, Nat.add_zero, if_pos rfl]
        simp [exponentPart, hnone]
      · have hpos := byteSize_pos hnone
        rw [if_neg (by omega)]
        have hletter : (c == 'e' || c == 'E') = true := by simpa using he
        simp only [exponentPart, hletter, List.isEmpty_eq_false_iff.mpr hnone, Bool.not_false,
          Bool.and_self, if_true, byteSize_append, byteSize_cons, hsize]
        congr 1
        omega
    · rw [not_or] at he
      simp [exponentPart, he.1, he.2]

theorem pastNumber?_of_from? (h : from? text n = some rest) :
    pastNumber? text n = some (n + byteSize (numberPart rest).1) := by
  have hdigits := from?_of_append h (signPart_append rest)
  have hfraction := from?_of_append hdigits (digitsPart_append _)
  have hexponent := from?_of_append hfraction (fractionPart_append _)
  simp only [pastNumber?, pastSign?_of_from? h, pastDigits?_of_from? hdigits,
    pastFraction?_of_from? hfraction, pastExponent?_of_from? hexponent, Option.bind_eq_bind,
    Option.bind_some]
  simp only [numberPart, byteSize_append, Nat.add_assoc]

theorem numberPiece?_of_from? (h : from? text n = some rest) :
    numberPiece? text n = some ((numberPiece rest).1, n + byteSize (numberPiece rest).2.1) := by
  have hrest := from?_of_append h (numberPart_append rest)
  have hglued := pastBytes?_of_from? isNamePart (fun _ => utf8Size_of_isNamePart) hrest
  simp only [numberPiece?, pastNumber?_of_from? h, hglued, Option.bind_eq_bind, Option.bind_some,
    numberPiece]
  by_cases hnone : (numberPart rest).2.takeWhile isNamePart = []
  · simp [hnone]
  · have hpos := byteSize_pos hnone
    have hcut : cut? text ⟨n, n + byteSize (numberPart rest).1 +
        byteSize ((numberPart rest).2.takeWhile isNamePart)⟩ =
        some ((numberPart rest).1 ++ (numberPart rest).2.takeWhile isNamePart) := by
      rw [Nat.add_assoc, ← byteSize_append]
      refine @cut?_add text _ ((numberPart rest).2.dropWhile isNamePart) n ?_
      rw [List.append_assoc, List.takeWhile_append_dropWhile, numberPart_append]
      exact h
    have hmoved : n + byteSize (numberPart rest).1 +
        byteSize ((numberPart rest).2.takeWhile isNamePart) ≠ n + byteSize (numberPart rest).1 := by
      omega
    rw [if_neg hmoved, hcut]
    simp [hnone, Nat.add_assoc]

theorem piece?_of_from? (h : from? text n = some (c :: cs)) :
    piece? text n c cs = some ((piece c cs).1, n + byteSize (piece c cs).2.1) := by
  unfold piece? piece
  split
  · rfl
  split
  · rename_i hc
    subst hc
    rw [pastLine?_of_from? h]
    simp
  split
  · rename_i hc
    subst hc
    rfl
  split
  · rename_i hc
    subst hc
    rfl
  split
  · rename_i hc
    subst hc
    rfl
  split
  · rename_i hc
    subst hc
    refine (congrArg _ (pastString?_of_from? (from?_cons h))).trans ?_
    rw [Option.map_some, Nat.add_assoc]
    rfl
  split
  · exact numberPiece?_of_from? h
  split
  · rename_i hc
    have hpart : isNamePart c = true := by simp [isNamePart, hc]
    rw [pastBytes?_of_from? isNamePart (fun _ => utf8Size_of_isNamePart) h,
      List.takeWhile_cons_of_pos hpart]
    rfl
  · rfl

theorem Span.kept_eq {start stop : Nat} (hsize : byteSize text < UInt32.size)
    (hstart : start ≤ stop) (hstop : stop ≤ byteSize text) : kept start stop = ⟨start, stop⟩ := by
  rw [kept, Nat.mod_eq_of_lt (by omega), Nat.mod_eq_of_lt (by omega)]

/-- The piece at an offset, and what the cursor finds behind it. -/
theorem scanAt?_cons (hsize : byteSize text < UInt32.size) (h : from? text n = some (c :: cs)) :
    scanAt? text n = (scanAt? text (n + byteSize (piece c cs).2.1)).map fun found =>
      let span : Span := ⟨n, n + byteSize (piece c cs).2.1⟩
      match (piece c cs).1 with
      | .token kind => (⟨kind, String.ofList (piece c cs).2.1, span⟩ :: found.1, found.2)
      | .fault cause => (found.1, .ofCause .error cause (some span) :: found.2)
      | .gap => (found.1, found.2) := by
  have hused : from? text n = some ((piece c cs).2.1 ++ (piece c cs).2.2) := by
    rw [piece_append]
    exact h
  have hle := le_of_from? (from?_add hused)
  have hlt : n < n + byteSize (piece c cs).2.1 :=
    Nat.lt_add_of_pos_right (byteSize_pos (piece_used_ne_nil c cs))
  rw [scanAt?, h]
  simp only [piece?_of_from? h]
  rw [if_pos ⟨hlt, hle⟩, Span.kept_eq hsize hlt.le hle, cut?_add hused]
  cases scanAt? text (n + byteSize (piece c cs).2.1) with
  | none => rfl
  | some found => cases (piece c cs).1 <;> rfl

theorem scanAt?_of_from? (hsize : byteSize text < UInt32.size) (h : from? text n = some cs) :
    scanAt? text n = some (scanFrom n cs) := by
  fun_induction scanFrom n cs with
  | case1 pos =>
    have hcut : cut? text ⟨pos, pos⟩ = some [] := @cut?_add text [] [] pos h
    rw [scanAt?, h]
    simp only [Span.kept_eq hsize le_rfl (le_of_from? h), hcut]
    rfl
  | case2 pos c cs next tokens faults hnext kind hkind ih
  | case3 pos c cs next tokens faults hnext kind hkind ih
  | case4 pos c cs next tokens faults hnext hkind ih =>
    rw [scanAt?_cons hsize h, ih (from?_of_append h (piece_append c cs)), hnext, hkind]
    rfl

/-- A cursor comes through every text, and finds what there is. -/
theorem scanAt?_eq (hsize : byteSize text < UInt32.size) : scanAt? text 0 = some (scan text) :=
  scanAt?_of_from? hsize (from?_byteSize [] text)

end

end ShadingMachine.Text
