import Mathlib.Data.List.Basic
import ChipEight.Listing.Row
import ChipEight.Proofs.Numerals

/-!
# Reading rows back

A row of a listing shows the span that it covers and then its values.  No two rows have one text:
the numerals of the span end at a blank, and the words between the blanks after them are the
values.  The rows of a sequence hold all of its values, so that the sequence can be told from the
texts of its rows.

* `Listing.spanText_inj` — the span of a row and what comes after it;
* `Listing.textWords` — the words of a text, as `textWords_numbersText` and
  `textWords_levelsText` have them for the values of a row;
* `Listing.flatten_pieces` — cutting a sequence into pieces loses nothing;
* `Listing.numberRows_injective`, `Listing.levelRows_injective` — sequences of rows;
* `Listing.MemoryRow.text_injective` — rows of a memory, where a run of zeros has a text of its
  own.
-/

namespace ChipEight
namespace Listing

/-! ## One row -/

/-- The head of a row and what follows it can be told from the line. -/
theorem spanText_inj {span other : Span} {content rest : List Char}
    (hSame : span.text ++ ' ' :: content = other.text ++ ' ' :: rest) :
    span = other ∧ content = rest := by
  have hBlank : Char.isAlphanum ' ' = false := rfl
  simp only [Span.text, List.append_assoc, List.cons_append, List.nil_append] at hSame
  obtain ⟨hFirst, hRest⟩ := Numeral.markedHex_append_inj hBlank hSame
  simp only [List.cons.injEq, true_and] at hRest
  obtain ⟨hLast, hContent⟩ := Numeral.markedHex_append_inj hBlank hRest
  simp only [List.cons.injEq, true_and] at hContent
  cases span
  cases other
  exact ⟨congrArg₂ Span.mk hFirst hLast, hContent⟩

theorem newline_not_mem_markedHex (value : Nat) : '\n' ∉ Numeral.markedHex 4 value :=
  Numeral.not_mem_markedHex rfl 4 value

/-- A head holds no line break. -/
theorem newline_not_mem_spanText (span : Span) : '\n' ∉ span.text := by
  simp [Span.text, newline_not_mem_markedHex]

/-! ## The words of a text -/

/-- The words between the blanks of a text. -/
def textWords (text : List Char) : List (List Char) := (text.splitOn ' ').filter (· ≠ [])

theorem textWords_append (text rest : List Char) :
    textWords (text ++ ' ' :: rest) = textWords text ++ textWords rest := by
  rw [textWords, List.splitOn_append_cons_self, List.filter_append]
  rfl

theorem textWords_blank (rest : List Char) : textWords (' ' :: rest) = textWords rest :=
  textWords_append [] rest

theorem textWords_blanks (count : Nat) (rest : List Char) :
    textWords (List.replicate count ' ' ++ rest) = textWords rest := by
  induction count with
  | zero => rfl
  | succ count ih => rw [List.replicate_succ, List.cons_append, textWords_blank, ih]

theorem textWords_of_not_mem {word : List Char} (hWord : ' ' ∉ word) (hNonempty : word ≠ []) :
    textWords word = [word] := by
  rw [textWords, List.splitOn_eq_singleton hWord, List.filter_singleton, decide_eq_true hNonempty]
  rfl

theorem textWords_markedHex (width value : Nat) :
    textWords (Numeral.markedHex width value) = [Numeral.markedHex width value] :=
  textWords_of_not_mem (Numeral.not_mem_markedHex rfl width value)
    (Numeral.markedHex_ne_nil width value)

/-! ### Numbers -/

theorem numbersText_singleton (value : Nat) :
    numbersText [value] = Numeral.markedHex 4 value :=
  List.intercalate_singleton

theorem numbersText_cons_cons (value next : Nat) (later : List Nat) :
    numbersText (value :: next :: later) =
      Numeral.markedHex 4 value ++ ' ' :: numbersText (next :: later) := by
  simp only [numbersText, List.map_cons, List.intercalate_cons_cons, List.append_assoc,
    List.cons_append, List.nil_append]

theorem textWords_numbersText (values : List Nat) :
    textWords (numbersText values) = values.map (Numeral.markedHex 4) := by
  induction values with
  | nil => rfl
  | cons value values ih =>
    cases values with
    | nil => rw [numbersText_singleton, textWords_markedHex, List.map_singleton]
    | cons next later =>
      rw [numbersText_cons_cons, textWords_append, textWords_markedHex, ih]
      rfl

theorem numbersText_injective : Function.Injective numbersText := by
  have hNumeral : Function.Injective (Numeral.markedHex 4) := fun _ _ => Numeral.markedHex_inj
  intro values others hSame
  have hWords := congrArg textWords hSame
  rw [textWords_numbersText, textWords_numbersText] at hWords
  exact List.map_injective_iff.mpr hNumeral hWords

theorem newline_not_mem_numbersText (values : List Nat) : '\n' ∉ numbersText values := by
  induction values with
  | nil => exact List.not_mem_nil
  | cons value values ih =>
    cases values with
    | nil =>
      rw [numbersText_singleton]
      exact newline_not_mem_markedHex value
    | cons next later =>
      rw [numbersText_cons_cons, List.mem_append, List.mem_cons, not_or, not_or]
      exact ⟨newline_not_mem_markedHex value, by decide, ih⟩

/-! ### Levels -/

theorem textWords_levelsText (levels : List Bool) :
    textWords (levelsText levels) = levels.map levelText := by
  induction levels with
  | nil => rfl
  | cons level levels ih =>
    have hWord : textWords (levelText level) = [levelText level] := by cases level <;> rfl
    have hFilled : textWords (filled (levelText level)) = [levelText level] := by
      cases level <;> rfl
    cases levels with
    | nil => exact hWord
    | cons next later =>
      rw [levelsText, textWords_append, hFilled, ih]
      · rfl
      · exact nofun

theorem levelsText_injective : Function.Injective levelsText := by
  have hLevel : Function.Injective levelText := by
    intro level other
    cases level <;> cases other <;> decide
  intro levels others hSame
  have hWords := congrArg textWords hSame
  rw [textWords_levelsText, textWords_levelsText] at hWords
  exact List.map_injective_iff.mpr hLevel hWords

theorem newline_not_mem_levelsText (levels : List Bool) : '\n' ∉ levelsText levels := by
  induction levels with
  | nil => exact List.not_mem_nil
  | cons level levels ih =>
    cases levels with
    | nil => cases level <;> decide
    | cons next later =>
      rw [levelsText, List.mem_append, List.mem_cons, not_or, not_or]
      · exact ⟨by cases level <;> decide, by decide, ih⟩
      · exact nofun

/-! ## The rows of a sequence -/

theorem flatten_pieces {α : Type} (size : Nat) (values : List α) :
    (pieces size values).flatten = values := by
  induction values using pieces.induct size with
  | case1 => rw [pieces, List.flatten_nil]
  | case2 first later ih =>
    rw [pieces, List.flatten_cons, ih, List.cons_append, List.take_append_drop]

theorem map_snd_headed {α : Type} (start : Nat) (cut : List (List α)) :
    (headed start cut).map Prod.snd = cut := by
  induction cut generalizing start with
  | nil => rfl
  | cons piece later ih => rw [headed, List.map_cons, ih]

/-- The lines of a sequence, eight values in each. -/
def rowsWith {α : Type} (content : List α → List Char) (values : List α) : List (List Char) :=
  (headed 0 (pieces 8 values)).map fun row => row.1.text ++ ' ' :: content row.2

/-- If the values of a row can be told from its content, those of a sequence can be told from its
rows. -/
theorem rowsWith_injective {α : Type} {content : List α → List Char}
    (hContent : Function.Injective content) : Function.Injective (rowsWith content) := by
  have hLine : Function.Injective fun row : Span × List α =>
      row.1.text ++ ' ' :: content row.2 := by
    intro row other hSame
    obtain ⟨hSpan, hRest⟩ := spanText_inj hSame
    exact Prod.ext hSpan (hContent hRest)
  intro values others hSame
  have hPieces := congrArg (List.map Prod.snd) (List.map_injective_iff.mpr hLine hSame)
  rw [map_snd_headed, map_snd_headed] at hPieces
  rw [← flatten_pieces 8 values, hPieces, flatten_pieces]

/-- Every started piece of eight values has a row. -/
@[simp] theorem length_rowsWith {α : Type} (content : List α → List Char) (values : List α) :
    (rowsWith content values).length = (values.length + 7) / 8 := by
  have hHeaded (start : Nat) (cut : List (List α)) : (headed start cut).length = cut.length := by
    rw [← List.length_map (f := Prod.snd), map_snd_headed]
  rw [rowsWith, List.length_map, hHeaded]
  induction values using pieces.induct 8 with
  | case1 => simp [pieces]
  | case2 first later ih =>
    rw [pieces, List.length_cons, ih, List.length_drop, List.length_cons]
    omega

/-- A line break in a row comes from its content. -/
theorem newline_not_mem_rowsWith {α : Type} {content : List α → List Char}
    (hContent : ∀ values, '\n' ∉ content values) (values : List α) :
    ∀ row ∈ rowsWith content values, '\n' ∉ row := by
  intro row hMem
  obtain ⟨⟨span, piece⟩, -, rfl⟩ := List.mem_map.mp hMem
  rw [List.mem_append, List.mem_cons, not_or, not_or]
  exact ⟨newline_not_mem_spanText span, by decide, hContent piece⟩

@[simp] theorem length_numberRows (values : List Nat) :
    (numberRows values).length = (values.length + 7) / 8 :=
  length_rowsWith numbersText values

@[simp] theorem length_levelRows (levels : List Bool) :
    (levelRows levels).length = (levels.length + 7) / 8 :=
  length_rowsWith levelsText levels

theorem numberRows_injective : Function.Injective numberRows :=
  rowsWith_injective numbersText_injective

theorem levelRows_injective : Function.Injective levelRows :=
  rowsWith_injective levelsText_injective

namespace MemoryRow

/-! ## Rows of a memory -/

/-- The row shows what a run of zeros shows. -/
def IsFiller (row : MemoryRow) : Prop := row.content = zerosText

/-- Three points stand between the numerals of a run of zeros. -/
theorem textWords_zerosText :
    textWords zerosText = [Numeral.markedHex 4 0, ['.', '.', '.'], Numeral.markedHex 4 0] := by
  have hText : zerosText =
      Numeral.markedHex 4 0 ++ ' ' :: (List.replicate 19 ' ' ++
        (['.', '.', '.'] ++ ' ' :: (List.replicate 19 ' ' ++ Numeral.markedHex 4 0))) := by
    simp only [zerosText, List.append_assoc]
    rfl
  have hPoints : textWords ['.', '.', '.'] = [['.', '.', '.']] := rfl
  rw [hText, textWords_append, textWords_blanks, textWords_append, textWords_blanks,
    textWords_markedHex, hPoints]
  rfl

/-- Numbers are never shown as a run of zeros is. -/
theorem numbersText_ne_zerosText (values : List Nat) : numbersText values ≠ zerosText := by
  intro hSame
  have hWords := congrArg textWords hSame
  rw [textWords_numbersText, textWords_zerosText] at hWords
  have hPoints : ['.', '.', '.'] ∈ values.map (Numeral.markedHex 4) := by
    rw [hWords]
    simp
  obtain ⟨value, -, hNumeral⟩ := List.mem_map.mp hPoints
  have hPoint : Char.isAlphanum '.' = false := rfl
  exact Numeral.not_mem_markedHex hPoint 4 value (hNumeral ▸ List.mem_cons_self)

theorem isFiller_zeros (span : Span) : (zeros span).IsFiller := rfl

theorem not_isFiller_words (span : Span) (values : List Opcode) :
    ¬ (words span values).IsFiller := numbersText_ne_zerosText _

theorem text_injective : Function.Injective text := by
  intro row other hSame
  obtain ⟨hSpan, hContent⟩ := spanText_inj hSame
  cases row with
  | zeros span =>
    cases other with
    | zeros _ => exact congrArg zeros hSpan
    | words _ values => exact absurd hContent.symm (numbersText_ne_zerosText _)
  | words span values =>
    cases other with
    | zeros _ => exact absurd hContent (numbersText_ne_zerosText _)
    | words _ others =>
      have hValues : values = others :=
        List.map_injective_iff.mpr (fun _ _ => UInt16.toNat_inj.mp)
          (numbersText_injective hContent)
      exact congrArg₂ words hSpan hValues

theorem newline_not_mem_text (row : MemoryRow) : '\n' ∉ row.text := by
  rw [text, List.mem_append, List.mem_cons, not_or, not_or]
  refine ⟨newline_not_mem_spanText _, by decide, ?_⟩
  cases row with
  | zeros span => simp [content, zerosText, newline_not_mem_markedHex]
  | words span values => exact newline_not_mem_numbersText _

end MemoryRow

end Listing
end ChipEight
