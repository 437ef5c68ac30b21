import ChipEight.Proofs.Decoding
import ChipEight.Proofs.RowText

/-!
# The rows of a memory

The bytes of a memory are cut into pieces of sixteen, and neighbouring pieces of zeros are shown
as one row.  Nothing is lost by this.  The spans of the rows lie end to end, a row of words shows
each byte of its span, and a byte in the span of any other row is zero, so that every byte can be
found again.  How a byte is found depends on the rows only, and so two sequences of bytes with
the same rows are the same.

* `Listing.Tiles` — spans that lie end to end;
* `Listing.MemoryRow.Shows` — what a row says about the bytes;
* `Listing.IsDump`, `Listing.isDump_rowsFrom` — what holds of the rows of the bytes from a position
  on, by induction from the last piece to the first;
* `Listing.memoryRows_text_injective` — the texts of the rows determine the bytes;
* `Listing.memory_rows_lose_nothing` — all of it together.
-/

namespace ChipEight
namespace Listing

/-! ## Spans that lie end to end -/

/-- A position lies in a span. -/
def Span.Covers (span : Span) (position : Nat) : Prop :=
  span.first ≤ position ∧ position ≤ span.last

/-- The spans follow each other without a gap and without an overlap, from a first position up to
the one in front of `stop`. -/
def Tiles : Nat → Nat → List Span → Prop
  | start, stop, [] => start = stop
  | start, stop, span :: later =>
    span.first = start ∧ span.first ≤ span.last ∧ Tiles (span.last + 1) stop later

theorem Tiles.stop_unique {start stop other : Nat} {spans : List Span}
    (hTiles : Tiles start stop spans) (hOther : Tiles start other spans) : stop = other := by
  induction spans generalizing start with
  | nil => exact hTiles.symm.trans hOther
  | cons span later ih => exact ih hTiles.2.2 hOther.2.2

theorem Tiles.exists_covers {start stop position : Nat} {spans : List Span}
    (hTiles : Tiles start stop spans) (hStart : start ≤ position) (hStop : position < stop) :
    ∃ span ∈ spans, span.Covers position := by
  induction spans generalizing start with
  | nil =>
    have hEnd : start = stop := hTiles
    omega
  | cons span later ih =>
    obtain ⟨hFirst, -, hLater⟩ := hTiles
    by_cases hInside : position ≤ span.last
    · exact ⟨span, List.mem_cons_self, by omega, hInside⟩
    · obtain ⟨other, hMem, hCovers⟩ := ih hLater (by omega)
      exact ⟨other, List.mem_cons_of_mem _ hMem, hCovers⟩

/-! ## Bytes and words at a position -/

/-- The byte at a position, and zero where there is none. -/
def byteAt (bytes : List UInt8) (position : Nat) : Nat := (bytes[position]?.getD 0).toNat

/-- The word whose high byte is at a position. -/
def wordAt (bytes : List UInt8) (position : Nat) : Nat :=
  0x100 * byteAt bytes position + byteAt bytes (position + 1)

/-- The eight words from a position on. -/
def wordsAt (bytes : List UInt8) (position : Nat) : List Nat :=
  (List.range 8).map fun place => wordAt bytes (position + 2 * place)

@[simp] theorem length_words (bytes : List UInt8) :
    (words bytes).length = (bytes.length + 1) / 2 := by
  fun_induction words bytes with
  | case1 => simp
  | case2 high => simp
  | case3 high low later ih =>
    simp only [List.length_cons, ih]
    omega

/-- A word is made up of two bytes, and a byte that is missing counts as zero. -/
theorem toNat_words (bytes : List UInt8) (place : Nat) :
    ((words bytes)[place]?.getD 0).toNat = wordAt bytes (2 * place) := by
  fun_induction words bytes generalizing place with
  | case1 => rfl
  | case2 high =>
    cases place with
    | zero => exact Opcode.toNat_ofBytes high 0
    | succ place => rfl
  | case3 high low later ih =>
    cases place with
    | zero => exact Opcode.toNat_ofBytes high low
    | succ place => exact ih place

theorem length_filledWords {row : List Opcode} (hLength : row.length ≤ 8) :
    (filledWords row).length = 8 := by
  rw [filledWords, List.length_append, List.length_replicate]
  omega

theorem getElem?_filledWords {row : List Opcode} {place : Nat} (hPlace : place < 8) :
    (filledWords row)[place]? = some (row[place]?.getD 0) := by
  by_cases hInside : place < row.length
  · rw [filledWords, List.getElem?_append_left hInside, List.getElem?_eq_getElem hInside,
      Option.getD_some]
  · have hOutside : row.length ≤ place := Nat.not_lt.mp hInside
    rw [filledWords, List.getElem?_append_right hOutside, List.getElem?_eq_none hOutside,
      List.getElem?_replicate_of_lt (by omega), Option.getD_none]

/-- A row that is filled up shows the words of its bytes. -/
theorem toNat_filledWords {bytes : List UInt8} (hLength : bytes.length ≤ 16) :
    (filledWords (words bytes)).map UInt16.toNat = wordsAt bytes 0 := by
  have hWords : (words bytes).length ≤ 8 := by
    rw [length_words]
    omega
  refine List.ext_getElem? fun place => ?_
  by_cases hPlace : place < 8
  · rw [wordsAt, List.getElem?_map, List.getElem?_map, getElem?_filledWords hPlace,
      List.getElem?_range hPlace, Option.map_some, Option.map_some, toNat_words, Nat.zero_add]
  · rw [List.getElem?_eq_none, List.getElem?_eq_none]
    · rw [wordsAt, List.length_map, List.length_range]
      omega
    · rw [List.length_map, length_filledWords hWords]
      omega

/-! ## What a row says -/

/-- What a row says about the bytes that it is a row of.  A row of words covers one piece, in
which there is something to show. -/
def MemoryRow.Shows (bytes : List UInt8) : MemoryRow → Prop
  | .zeros span => ∀ position, span.Covers position → bytes[position]? = some 0
  | .words span values =>
    16 ∣ span.first ∧ span.last + 1 = min (span.first + 16) bytes.length ∧
      (∃ position, span.Covers position ∧ bytes[position]? ≠ some 0) ∧
      values.map UInt16.toNat = wordsAt bytes span.first

variable {bytes : List UInt8} {start : Nat}

/-- The piece of the bytes that begins at a position. -/
def chunk (bytes : List UInt8) (start : Nat) : List UInt8 := (bytes.drop start).take 16

/-- The span of that piece. -/
def chunkSpan (bytes : List UInt8) (start : Nat) : Span :=
  ⟨start, start + (chunk bytes start).length - 1⟩

@[simp] theorem length_chunk (bytes : List UInt8) (start : Nat) :
    (chunk bytes start).length = min 16 (bytes.length - start) := by
  rw [chunk, List.length_take, List.length_drop]

theorem last_chunkSpan (hStart : start < bytes.length) :
    (chunkSpan bytes start).last + 1 = min (start + 16) bytes.length := by
  simp only [chunkSpan, length_chunk]
  omega

theorem getElem?_chunk {offset : Nat} (hOffset : offset < 16) :
    (chunk bytes start)[offset]? = bytes[start + offset]? := by
  rw [chunk, List.getElem?_take_of_lt hOffset, List.getElem?_drop]

theorem all_chunk_iff (hStart : start < bytes.length) :
    (chunk bytes start).all (· == 0) = true ↔
      ∀ position, (chunkSpan bytes start).Covers position → bytes[position]? = some 0 := by
  have hLast := last_chunkSpan hStart
  have hLength := length_chunk bytes start
  rw [List.all_eq_true]
  constructor
  · rintro hAll position ⟨hFrom, hTo⟩
    obtain ⟨offset, rfl⟩ : ∃ offset, position = start + offset := Nat.exists_eq_add_of_le hFrom
    have hOffset : offset < (chunk bytes start).length := by omega
    rw [← getElem?_chunk (by omega), List.getElem?_eq_getElem hOffset]
    exact congrArg some (eq_of_beq (hAll _ (List.getElem_mem hOffset)))
  · intro hZeros byte hMem
    obtain ⟨offset, hOffset, rfl⟩ := List.getElem_of_mem hMem
    have hZero := hZeros (start + offset) ⟨Nat.le_add_right start offset, by omega⟩
    rw [← getElem?_chunk (by omega), List.getElem?_eq_getElem hOffset] at hZero
    exact beq_iff_eq.mpr (Option.some.inj hZero)

theorem wordsAt_chunk (bytes : List UInt8) (start : Nat) :
    wordsAt (chunk bytes start) 0 = wordsAt bytes start := by
  refine List.map_congr_left fun place hPlace => ?_
  have hInside : place < 8 := List.mem_range.mp hPlace
  simp only [wordAt, byteAt]
  rw [getElem?_chunk (by omega), getElem?_chunk (by omega)]
  simp only [Nat.zero_add, Nat.add_assoc]

/-- The row of a piece says what its bytes are. -/
theorem shows_ofBytes (hAligned : 16 ∣ start) (hStart : start < bytes.length) :
    (MemoryRow.ofBytes (chunkSpan bytes start) (chunk bytes start)).Shows bytes := by
  by_cases hZeros : (chunk bytes start).all (· == 0) = true
  · rw [MemoryRow.ofBytes, if_pos hZeros]
    exact (all_chunk_iff hStart).mp hZeros
  · rw [MemoryRow.ofBytes, if_neg hZeros]
    refine ⟨hAligned, last_chunkSpan hStart, ?_, ?_⟩
    · rw [all_chunk_iff hStart] at hZeros
      simpa only [not_forall, exists_prop] using hZeros
    · rw [toNat_filledWords (by rw [length_chunk]; omega), wordsAt_chunk]
      rfl

/-! ## Rows put in front of others -/

/-- A row is put in front of others as it is, unless it and the first of them are runs of
zeros. -/
theorem before_cases (row : MemoryRow) (rows : List MemoryRow) :
    (∃ span later rest, row = .zeros span ∧ rows = .zeros later :: rest ∧
      row.before rows = .zeros ⟨span.first, later.last⟩ :: rest) ∨
    ((∀ next rest, rows = next :: rest → ¬ (row.IsFiller ∧ next.IsFiller)) ∧
      row.before rows = row :: rows) := by
  cases row with
  | words span values =>
    exact Or.inr ⟨fun _ _ _ hBoth => MemoryRow.not_isFiller_words span values hBoth.1, rfl⟩
  | zeros span =>
    cases rows with
    | nil => exact Or.inr ⟨nofun, rfl⟩
    | cons next rest =>
      cases next with
      | zeros later => exact Or.inl ⟨span, later, rest, rfl, rfl, rfl⟩
      | words other values =>
        refine Or.inr ⟨?_, rfl⟩
        rintro _ _ ⟨⟩ hBoth
        exact MemoryRow.not_isFiller_words other values hBoth.2

/-- What holds of the rows of the bytes from a position on. -/
structure IsDump (bytes : List UInt8) (start : Nat) (rows : List MemoryRow) : Prop where
  /-- A position behind the end has no rows. -/
  tiles : Tiles (min start bytes.length) bytes.length (rows.map MemoryRow.span)
  each : ∀ row ∈ rows, row.Shows bytes
  apart : rows.IsChain fun row next => ¬ (row.IsFiller ∧ next.IsFiller)

theorem IsDump.nil (hEnd : bytes.length ≤ start) : IsDump bytes start [] where
  tiles := Nat.min_eq_right hEnd
  each := nofun
  apart := .nil

/-- The row of a piece is put in front of the rows of what follows. -/
theorem IsDump.before {row : MemoryRow} {rows : List MemoryRow} (hStart : start < bytes.length)
    (hDump : IsDump bytes (start + 16) rows) (hRow : row.Shows bytes)
    (hSpan : row.span = chunkSpan bytes start) : IsDump bytes start (row.before rows) := by
  have hLast := last_chunkSpan hStart
  obtain ⟨hTiles, hEach, hApart⟩ := hDump
  rw [← hLast] at hTiles
  have hMin : min start bytes.length = start := Nat.min_eq_left (Nat.le_of_lt hStart)
  have hFirst : (chunkSpan bytes start).first = min start bytes.length := hMin.symm
  have hFirstLast : (chunkSpan bytes start).first ≤ (chunkSpan bytes start).last := by
    simp only [chunkSpan] at hLast ⊢
    omega
  rcases before_cases row rows with ⟨span, later, rest, rfl, rfl, hBefore⟩ | ⟨hNext, hBefore⟩
  · -- two runs of zeros that lie end to end are one
    obtain rfl : span = chunkSpan bytes start := hSpan
    obtain ⟨hLaterFirst, hLaterLast, hRest⟩ := hTiles
    replace hLaterFirst : later.first = (chunkSpan bytes start).last + 1 := hLaterFirst
    replace hLaterLast : later.first ≤ later.last := hLaterLast
    rw [hBefore]
    refine ⟨⟨hFirst, ?_, hRest⟩, ?_, ?_⟩
    · show (chunkSpan bytes start).first ≤ later.last
      omega
    · rw [List.forall_mem_cons]
      refine ⟨?_, fun other hMem => hEach other (List.mem_cons_of_mem _ hMem)⟩
      rintro position ⟨hFrom, hTo⟩
      by_cases hInside : position ≤ (chunkSpan bytes start).last
      · exact hRow position ⟨hFrom, hInside⟩
      · exact hEach (.zeros later) List.mem_cons_self position ⟨by omega, hTo⟩
    · cases rest with
      | nil => exact .singleton _
      | cons next rest =>
        obtain ⟨hLater, hRestApart⟩ := List.isChain_cons_cons.mp hApart
        exact .cons_cons hLater hRestApart
  · rw [hBefore]
    refine ⟨?_, List.forall_mem_cons.mpr ⟨hRow, hEach⟩, ?_⟩
    · rw [List.map_cons, hSpan]
      exact ⟨hFirst, hFirstLast, hTiles⟩
    · cases rows with
      | nil => exact .singleton row
      | cons next rest => exact .cons_cons (hNext next rest rfl) hApart

/-! ## The rows of the bytes from a position on -/

/-- The rows of the bytes from a position on. -/
def rowsFrom (bytes : List UInt8) (start : Nat) : List MemoryRow :=
  (headed start (pieces 16 (bytes.drop start))).foldr
    (fun row rows => (MemoryRow.ofBytes row.1 row.2).before rows) []

theorem rowsFrom_of_le (hEnd : bytes.length ≤ start) : rowsFrom bytes start = [] := by
  rw [rowsFrom, List.drop_eq_nil_of_le hEnd, pieces]
  rfl

theorem rowsFrom_of_lt (hStart : start < bytes.length) :
    rowsFrom bytes start =
      (MemoryRow.ofBytes (chunkSpan bytes start) (chunk bytes start)).before
        (rowsFrom bytes (start + 16)) := by
  have hLength := length_chunk bytes start
  have hPieces : pieces 16 (bytes.drop start) =
      chunk bytes start :: pieces 16 (bytes.drop (start + 16)) := by
    rw [chunk, ← List.drop_drop, List.drop_eq_getElem_cons hStart, pieces]
    rfl
  rw [rowsFrom, hPieces, headed, List.foldr_cons]
  congr 1
  by_cases hMore : start + 16 ≤ bytes.length
  · rw [rowsFrom, show start + (chunk bytes start).length = start + 16 by omega]
  · -- there is no piece after this one, so that it does not matter where it would begin
    rw [rowsFrom_of_le (by omega), List.drop_eq_nil_of_le (by omega), pieces]
    rfl

theorem isDump_rowsFrom (hAligned : 16 ∣ start) : IsDump bytes start (rowsFrom bytes start) := by
  induction hLeft : bytes.length - start using Nat.strongRecOn generalizing start with
  | _ left ih =>
    by_cases hStart : start < bytes.length
    · have hLater : IsDump bytes (start + 16) (rowsFrom bytes (start + 16)) :=
        ih (bytes.length - (start + 16)) (by omega) (by omega) rfl
      rw [rowsFrom_of_lt hStart]
      refine hLater.before hStart (shows_ofBytes hAligned hStart) ?_
      rw [MemoryRow.ofBytes]
      split <;> rfl
    · have hEnd : bytes.length ≤ start := Nat.not_lt.mp hStart
      rw [rowsFrom_of_le hEnd]
      exact .nil hEnd

theorem isDump_memoryRows (bytes : List UInt8) : IsDump bytes 0 (memoryRows bytes) :=
  isDump_rowsFrom (Nat.dvd_zero 16)

/-! ## Finding the bytes again -/

theorem byteAt_lt (bytes : List UInt8) (position : Nat) : byteAt bytes position < 256 :=
  UInt8.toNat_lt _

/-- Equal words have equal bytes. -/
theorem byteAt_eq_of_wordsAt_eq {other : List UInt8} {offset : Nat} (hOffset : offset < 16)
    (hWords : wordsAt bytes start = wordsAt other start) :
    byteAt bytes (start + offset) = byteAt other (start + offset) := by
  have hWord : wordAt bytes (start + 2 * (offset / 2)) = wordAt other (start + 2 * (offset / 2)) :=
    List.map_inj_left.mp hWords (offset / 2) (List.mem_range.mpr (by omega))
  simp only [wordAt] at hWord
  have hLow := byteAt_lt bytes (start + 2 * (offset / 2) + 1)
  have hOtherLow := byteAt_lt other (start + 2 * (offset / 2) + 1)
  -- the position is that of the high byte or of the low byte of the word
  rcases Nat.mod_two_eq_zero_or_one offset with hEven | hOdd
  · rw [show offset = 2 * (offset / 2) by omega]
    omega
  · rw [show start + offset = start + 2 * (offset / 2) + 1 by omega]
    omega

/-- What a row says about a position in its span, it says about one byte. -/
theorem MemoryRow.Shows.getElem?_eq {row : MemoryRow} {other : List UInt8} {position : Nat}
    (hRow : row.Shows bytes) (hOther : row.Shows other) (hCovers : row.span.Covers position) :
    bytes[position]? = other[position]? := by
  cases row with
  | zeros span => exact (hRow position hCovers).trans (hOther position hCovers).symm
  | words span values =>
    obtain ⟨-, hLast, -, hWords⟩ := hRow
    obtain ⟨-, hOtherLast, -, hOtherWords⟩ := hOther
    obtain ⟨hFrom, hTo⟩ : span.first ≤ position ∧ position ≤ span.last := hCovers
    obtain ⟨offset, rfl⟩ := Nat.exists_eq_add_of_le hFrom
    have hOffset : offset < 16 := by omega
    have hByte := byteAt_eq_of_wordsAt_eq hOffset (hWords.symm.trans hOtherWords)
    have hInside : span.first + offset < bytes.length := by omega
    have hOtherInside : span.first + offset < other.length := by omega
    simp only [byteAt, List.getElem?_eq_getElem hInside, List.getElem?_eq_getElem hOtherInside,
      Option.getD_some] at hByte
    rw [List.getElem?_eq_getElem hInside, List.getElem?_eq_getElem hOtherInside,
      UInt8.toNat_inj.mp hByte]

/-- The texts of the rows determine the bytes. -/
theorem memoryRows_text_injective :
    Function.Injective fun bytes => (memoryRows bytes).map MemoryRow.text := by
  intro bytes other hSame
  have hRows : memoryRows bytes = memoryRows other :=
    List.map_injective_iff.mpr MemoryRow.text_injective hSame
  have hDump := isDump_memoryRows bytes
  have hOther := isDump_memoryRows other
  rw [← hRows] at hOther
  have hTiles : Tiles 0 bytes.length ((memoryRows bytes).map MemoryRow.span) := by
    simpa only [Nat.zero_min] using hDump.tiles
  have hOtherTiles : Tiles 0 other.length ((memoryRows bytes).map MemoryRow.span) := by
    simpa only [Nat.zero_min] using hOther.tiles
  have hLength : bytes.length = other.length := hTiles.stop_unique hOtherTiles
  refine List.ext_getElem? fun position => ?_
  by_cases hInside : position < bytes.length
  · obtain ⟨span, hMem, hCovers⟩ := hTiles.exists_covers (Nat.zero_le position) hInside
    obtain ⟨row, hRow, rfl⟩ := List.mem_map.mp hMem
    exact (hDump.each row hRow).getElem?_eq (hOther.each row hRow) hCovers
  · rw [List.getElem?_eq_none (by omega), List.getElem?_eq_none (by omega)]

/-- A row is shown as a run of zeros exactly if all its bytes are zero. -/
theorem MemoryRow.Shows.isFiller_iff {row : MemoryRow} (hRow : row.Shows bytes) :
    row.IsFiller ↔ ∀ position, row.span.Covers position → bytes[position]? = some 0 := by
  cases row with
  | zeros span => exact iff_of_true (isFiller_zeros span) hRow
  | words span values =>
    obtain ⟨-, -, ⟨position, hCovers, hByte⟩, -⟩ := hRow
    exact iff_of_false (not_isFiller_words span values) fun hZeros =>
      hByte (hZeros position hCovers)

theorem MemoryRow.Shows.of_not_isFiller {row : MemoryRow} (hRow : row.Shows bytes)
    (hWords : ¬ row.IsFiller) :
    16 ∣ row.span.first ∧ row.span.last + 1 = min (row.span.first + 16) bytes.length ∧
      row.content = numbersText (wordsAt bytes row.span.first) := by
  cases row with
  | zeros span => exact absurd (isFiller_zeros span) hWords
  | words span values =>
    obtain ⟨hFirst, hLast, -, hValues⟩ := hRow
    exact ⟨hFirst, hLast, congrArg numbersText hValues⟩

/-- The spans of the rows lie end to end and cover all positions.  A row is shown as a run of
zeros exactly if all its bytes are zero, and no two such rows are neighbours.  Every other row
covers one piece of sixteen bytes, of which only the last one may be shorter, and shows its eight
words.  So sequences of bytes with the same rows are the same. -/
theorem memory_rows_lose_nothing (bytes : List UInt8) :
    let rows := memoryRows bytes
    Tiles 0 bytes.length (rows.map MemoryRow.span) ∧ (rows = [] ↔ bytes = []) ∧
      (∀ row ∈ rows,
        row.IsFiller ↔ ∀ position, row.span.Covers position → bytes[position]? = some 0) ∧
      (rows.IsChain fun row next => ¬ (row.IsFiller ∧ next.IsFiller)) ∧
      (∀ row ∈ rows, ¬ row.IsFiller →
        16 ∣ row.span.first ∧ row.span.last + 1 = min (row.span.first + 16) bytes.length ∧
          row.content = numbersText (wordsAt bytes row.span.first)) ∧
      ∀ other, rows.map MemoryRow.text = (memoryRows other).map MemoryRow.text ↔
        bytes = other := by
  intro rows
  obtain ⟨hTiles, hEach, hApart⟩ := isDump_memoryRows bytes
  rw [Nat.zero_min] at hTiles
  refine ⟨hTiles, ?_, ?_, hApart, ?_, fun other => memoryRows_text_injective.eq_iff⟩
  · constructor
    · intro hNone
      replace hTiles : Tiles 0 bytes.length (rows.map MemoryRow.span) := hTiles
      rw [hNone] at hTiles
      exact List.eq_nil_of_length_eq_zero hTiles.symm
    · rintro rfl
      exact rowsFrom_of_le (Nat.le_refl 0)
  · exact fun row hMem => (hEach row hMem).isFiller_iff
  · exact fun row hMem => (hEach row hMem).of_not_isFiller

/-- Thirty-two zeros are one row, and the three bytes after them another.  With one more zero the
rows are not the same, although it adds nothing to the words. -/
theorem memory_rows_lose_nothing_partial :
    let bytes : List UInt8 := List.replicate 32 0 ++ [0x12, 0x00, 0x34]
    let last : MemoryRow := .words ⟨32, 34⟩ [0x1200, 0x3400, 0, 0, 0, 0, 0, 0]
    memoryRows bytes = [.zeros ⟨0, 31⟩, last] ∧
      (∀ position, (Span.mk 0 31).Covers position → bytes[position]? = some 0) ∧
      (16 ∣ 32 ∧ 34 + 1 = min (32 + 16) bytes.length ∧
        last.content = numbersText (wordsAt bytes 32)) ∧
      (memoryRows bytes).map MemoryRow.text ≠
        (memoryRows (bytes ++ [0])).map MemoryRow.text := by
  intro bytes last
  have hRows : memoryRows bytes = [.zeros ⟨0, 31⟩, last] := by decide +kernel
  obtain ⟨-, -, hFillers, -, hWords, hInjective⟩ := memory_rows_lose_nothing bytes
  rw [hRows] at hFillers hWords
  refine ⟨hRows, (hFillers (.zeros ⟨0, 31⟩) (by simp)).mp (MemoryRow.isFiller_zeros _),
    hWords last (by simp) (MemoryRow.not_isFiller_words _ _), ?_⟩
  exact fun hSame => absurd ((hInjective _).mp hSame) (by decide)

end Listing
end ChipEight
