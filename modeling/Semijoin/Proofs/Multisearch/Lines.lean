import Mathlib.Data.List.TakeWhile
import Semijoin.Multisearch
import Semijoin.Proofs.Json.Doubles

/-!
# The lines of a multi-search body

A body is cut at its line feeds, and the lines that are not blank are taken with their numbers. When
one text ends with a line feed, the lines of a second one behind it only have larger numbers. The
text of a document stands on one line, so the lines of an expanded body are the lines of its text.
-/

namespace Semijoin

namespace Text

/-- The lines of a text are what its line feeds separate. -/
theorem lines_eq_splitOn (text : List Char) : lines text = text.splitOn '\n' := by
  induction text with
  | nil => rfl
  | cons c rest ih =>
    obtain ⟨line, others, hsplit⟩ := List.exists_cons_of_ne_nil (List.splitOn_ne_nil '\n' rest)
    rw [hsplit] at ih
    unfold lines at ih ⊢
    rw [List.foldr_cons, ih, List.splitOn_cons_eq_if_modifyHead, hsplit]
    simp only [beq_iff_eq, List.modifyHead_cons]

/-- There is one line more than there are line feeds. -/
theorem length_splitOn_lineFeed (text : List Char) :
    (text.splitOn '\n').length = text.count '\n' + 1 := by
  induction text with
  | nil => rfl
  | cons c rest ih =>
    rw [List.splitOn_cons_eq_if_modifyHead, List.count_cons]
    split
    · rw [List.length_cons, ih]
    · rw [List.length_modifyHead, ih, Nat.add_zero]

/-- No line contains a line feed. -/
theorem lineFeed_notMem_of_mem_splitOn {text line : List Char} (h : line ∈ text.splitOn '\n') :
    '\n' ∉ line := by
  induction text generalizing line with
  | nil =>
    rw [List.splitOn_nil, List.mem_singleton] at h
    rw [h]
    exact List.not_mem_nil
  | cons c rest ih =>
    rw [List.splitOn_cons_eq_if_modifyHead] at h
    obtain ⟨first, others, hsplit⟩ := List.exists_cons_of_ne_nil (List.splitOn_ne_nil '\n' rest)
    rw [hsplit] at h ih
    split at h
    · rcases List.mem_cons.mp h with rfl | h
      · exact List.not_mem_nil
      · exact ih h
    · rename_i hc
      rcases List.mem_cons.mp h with rfl | h
      · have hfirst := ih List.mem_cons_self
        rw [List.mem_cons, not_or]
        exact ⟨fun heq => hc (by rw [heq, beq_self_eq_true]), hfirst⟩
      · exact ih (List.mem_cons_of_mem _ h)

/-- Lines that are each ended by a line feed are read back, with nothing behind them. -/
theorem splitOn_flatMap_ended {lines : List (List Char)} (h : ∀ line ∈ lines, '\n' ∉ line) :
    (lines.flatMap fun line => line ++ ['\n']).splitOn '\n' = lines ++ [[]] := by
  induction lines with
  | nil => rfl
  | cons line rest ih =>
    have hrest := ih fun other hother => h other (List.mem_cons_of_mem _ hother)
    rw [List.flatMap_cons, List.append_assoc, List.singleton_append,
      List.splitOn_append_cons_self_of_not_mem (h line List.mem_cons_self), hrest]
    rfl

/-- A text is another one without the blanks around it. -/
structure Trims (raw text : List Char) : Prop where
  around : ∃ before after, raw = before ++ text ++ after ∧
    (∀ c ∈ before, isBlank c = true) ∧ ∀ c ∈ after, isBlank c = true
  first : ∀ c, text.head? = some c → isBlank c = false
  last : ∀ c, text.getLast? = some c → isBlank c = false

/-- Trimming takes the blanks around a text away. -/
theorem trims_trim (raw : List Char) : Trims raw (trim raw) := by
  have hstart : raw.takeWhile isBlank ++ raw.dropWhile isBlank = raw :=
    List.takeWhile_append_dropWhile
  have hend : trim raw ++ ((raw.dropWhile isBlank).reverse.takeWhile isBlank).reverse =
      raw.dropWhile isBlank := by
    rw [trim, ← List.reverse_append, List.takeWhile_append_dropWhile, List.reverse_reverse]
  refine ⟨⟨raw.takeWhile isBlank, ((raw.dropWhile isBlank).reverse.takeWhile isBlank).reverse,
    ?_, ?_, ?_⟩, fun c hc => ?_, fun c hc => ?_⟩
  · rw [List.append_assoc, hend, hstart]
  · exact fun c hc => List.mem_takeWhile_imp hc
  · exact fun c hc => List.mem_takeWhile_imp (List.mem_reverse.mp hc)
  · have hhead := List.head?_dropWhile_not isBlank raw
    rw [← hend, List.head?_append, hc] at hhead
    exact hhead
  · rw [trim, List.getLast?_reverse] at hc
    have hhead := List.head?_dropWhile_not isBlank (raw.dropWhile isBlank).reverse
    rw [hc] at hhead
    exact hhead

/-- There is only one way to take the blanks around a text away. -/
theorem Trims.eq_trim {raw text : List Char} (h : Trims raw text) : text = trim raw := by
  have hkeep {part : List Char} (hpart : ∀ c, part.head? = some c → isBlank c = false) :
      part.dropWhile isBlank = part := by
    cases part with
    | nil => rfl
    | cons c rest => exact List.dropWhile_cons_of_neg (Bool.eq_false_iff.mp (hpart c rfl))
  obtain ⟨before, after, rfl, hbefore, hafter⟩ := h.around
  rw [trim, List.append_assoc, List.dropWhile_append_of_pos hbefore]
  cases text with
  | nil =>
    rw [List.nil_append, List.dropWhile_eq_nil_iff.mpr hafter]
    rfl
  | cons c rest =>
    have hlast : ∀ c', (c :: rest).reverse.head? = some c' → isBlank c' = false := by
      rw [List.head?_reverse]
      exact h.last
    rw [@hkeep (c :: rest ++ after) h.first, List.reverse_append,
      List.dropWhile_append_of_pos fun c hc => hafter c (List.mem_reverse.mp hc), hkeep hlast,
      List.reverse_reverse]

/-- What is in a trimmed text was in the text. -/
theorem Trims.mem {raw text : List Char} (h : Trims raw text) {c : Char} (hc : c ∈ text) :
    c ∈ raw := by
  obtain ⟨before, after, rfl, -⟩ := h.around
  exact List.mem_append_left _ (List.mem_append_right _ hc)

end Text

namespace Json

/-- A line feed in a string is written with an escape. -/
theorem lineFeed_notMem_stringChars (text : String) : '\n' ∉ stringChars text := by
  have hcontrol : ∀ code < 0x20, '\n' ∉ charChars (Char.ofNat code) := by decide
  have hchar (c : Char) : '\n' ∉ charChars c := by
    by_cases hc : c.toNat < 0x20
    · have hcode := hcontrol c.toNat hc
      rwa [Char.ofNat_toNat] at hcode
    · have hne : '\n' ≠ c := by
        rintro rfl
        exact hc (by decide)
      unfold charChars
      split_ifs
      all_goals first
        | decide
        | simpa using hne
  simp [stringChars, hchar]

/-- The characters of numerals are no line feeds. -/
theorem lineFeed_notMem_number (number : Number) : '\n' ∉ number.chars := by
  have hglyph : ¬ Numeral.Glyph '\n' := by
    unfold Numeral.Glyph
    decide
  cases number with
  | integer value =>
    have hdigits : '\n' ∉ digitChars value.natAbs :=
      fun h => hglyph (Decimal.glyph_of_mem_digitChars h)
    change '\n' ∉ if value < 0 then '-' :: digitChars value.natAbs else digitChars value.natAbs
    split
    · rw [List.mem_cons, not_or]
      exact ⟨by decide, hdigits⟩
    · exact hdigits
  | float bits => exact fun h => hglyph (Number.glyph_of_mem_floatChars h)

mutual

/-- The text of a document stands on one line. -/
theorem lineFeed_notMem_chars (depth : Nat) : (value : Json) → '\n' ∉ value.chars .compact depth
  | .null | .bool true | .bool false | .array [] | .object [] => by simp [chars]
  | .number value => lineFeed_notMem_number value
  | .string text => lineFeed_notMem_stringChars text
  | .array (item :: rest) => by
    have hitem := lineFeed_notMem_chars (depth + 1) item
    have hrest := lineFeed_notMem_itemsChars (depth + 1) rest
    simp [chars, Layout.lineBreak, hitem, hrest]
  | .object ((key, value) :: rest) => by
    have hkey := lineFeed_notMem_stringChars key
    have hvalue := lineFeed_notMem_chars (depth + 1) value
    have hrest := lineFeed_notMem_membersChars (depth + 1) rest
    simp [chars, Layout.lineBreak, Layout.colon, hkey, hvalue, hrest]

/-- Neither do further elements of an array begin a line. -/
theorem lineFeed_notMem_itemsChars (depth : Nat) :
    (items : List Json) → '\n' ∉ itemsChars .compact depth items
  | [] => by simp [itemsChars]
  | item :: rest => by
    have hitem := lineFeed_notMem_chars depth item
    have hrest := lineFeed_notMem_itemsChars depth rest
    simp [itemsChars, Layout.lineBreak, hitem, hrest]

/-- Neither do further members of an object. -/
theorem lineFeed_notMem_membersChars (depth : Nat) :
    (members : List (String × Json)) → '\n' ∉ membersChars .compact depth members
  | [] => by simp [membersChars]
  | (key, value) :: rest => by
    have hkey := lineFeed_notMem_stringChars key
    have hvalue := lineFeed_notMem_chars depth value
    have hrest := lineFeed_notMem_membersChars depth rest
    simp [membersChars, Layout.lineBreak, Layout.colon, hkey, hvalue, hrest]

end

end Json

namespace Multisearch

/-- The lines of a text that are not blank are listed in order, each trimmed and with its number
among all lines. -/
structure Numbered (text : List Char) (lines : List Line) : Prop where
  mem_iff : ∀ line, line ∈ lines ↔ line.text ≠ [] ∧ ∃ position raw,
    (text.splitOn '\n')[position]? = some raw ∧ line.number = position + 1 ∧
      Text.Trims raw line.text
  increasing : lines.Pairwise fun line later => line.number < later.number

/-- A line without the blanks around it, unless there is nothing else on it. -/
def Line.ofRaw? (entry : List Char × Nat) : Option Line :=
  if (Text.trim entry.1).isEmpty then none else some ⟨entry.2, Text.trim entry.1⟩

/-- The lines of a body are listed from the pieces between its line feeds. -/
theorem linesOf_eq (text : List Char) :
    linesOf text = ((text.splitOn '\n').zipIdx 1).filterMap Line.ofRaw? := by
  rw [linesOf, Text.lines_eq_splitOn]
  rfl

/-- The lines of a body are those that are not blank. -/
theorem numbered_linesOf (text : List Char) : Numbered text (linesOf text) := by
  rw [linesOf_eq]
  constructor
  · intro line
    rw [List.mem_filterMap]
    constructor
    · rintro ⟨⟨raw, number⟩, hentry, hline⟩
      obtain ⟨hle, hraw⟩ := List.mem_zipIdx_iff_le_and_getElem?_sub.mp hentry
      unfold Line.ofRaw? at hline
      split at hline
      · cases hline
      · rename_i hblank
        cases hline
        exact ⟨fun hempty => hblank (List.isEmpty_iff.mpr hempty), number - 1, raw, hraw,
          (Nat.sub_add_cancel hle).symm, Text.trims_trim raw⟩
    · rintro ⟨hblank, position, raw, hraw, hnumber, htrims⟩
      obtain ⟨number, text⟩ := line
      dsimp only at hblank hnumber htrims
      subst hnumber
      rw [htrims.eq_trim] at hblank ⊢
      refine ⟨(raw, position + 1), ?_, ?_⟩
      · exact List.mem_zipIdx_iff_le_and_getElem?_sub.mpr ⟨by omega, by simpa using hraw⟩
      · simp only [Line.ofRaw?, List.isEmpty_iff]
        exact if_neg hblank
  · rw [List.pairwise_filterMap]
    have hnumbers : ((text.splitOn '\n').zipIdx 1).Pairwise fun entry later =>
        entry.2 < later.2 := by
      rw [← @List.pairwise_map _ _ Prod.snd (fun a b : Nat => a < b), List.zipIdx_map_snd]
      exact List.pairwise_lt_range'
    refine hnumbers.imp fun {entry later} hlt line hline other hother => ?_
    unfold Line.ofRaw? at hline hother
    split at hline
    · cases hline
    · split at hother
      · cases hother
      · cases hline
        cases hother
        exact hlt

/-- No line of a body contains a line feed. -/
theorem lineFeed_notMem_of_mem_linesOf {text : List Char} {line : Line}
    (h : line ∈ linesOf text) : '\n' ∉ line.text := by
  obtain ⟨-, position, raw, hraw, -, htrims⟩ := ((numbered_linesOf text).mem_iff line).mp h
  have hline := Text.lineFeed_notMem_of_mem_splitOn (List.mem_of_getElem? hraw)
  exact fun hmem => hline (htrims.mem hmem)

/-- A line with more lines in front of it. -/
def Line.later (count : Nat) (line : Line) : Line := { line with number := count + line.number }

/-- Pieces that are numbered from further on give lines with larger numbers. -/
theorem filterMap_ofRaw?_later (count start : Nat) (pieces : List (List Char)) :
    (pieces.zipIdx (count + start)).filterMap Line.ofRaw? =
      ((pieces.zipIdx start).filterMap Line.ofRaw?).map (Line.later count) := by
  induction pieces generalizing start with
  | nil => rfl
  | cons piece rest ih =>
    have hfirst : Line.ofRaw? (piece, count + start) =
        (Line.ofRaw? (piece, start)).map (Line.later count) := by
      unfold Line.ofRaw?
      dsimp only
      split <;> rfl
    rw [List.zipIdx_cons, List.zipIdx_cons, List.filterMap_cons, List.filterMap_cons, hfirst,
      Nat.add_assoc, ih]
    cases Line.ofRaw? (piece, start) <;> rfl

/-- When a text is empty or ends with a line feed, the lines of a second text behind it follow its
own, with larger numbers. -/
theorem linesOf_append {first : List Char} (hfirst : first = [] ∨ first.getLast? = some '\n')
    (second : List Char) :
    linesOf (first ++ second) =
      linesOf first ++ (linesOf second).map (Line.later (first.count '\n')) := by
  rcases hfirst with rfl | hlast
  · have hsame := filterMap_ofRaw?_later 0 1 (second.splitOn '\n')
    rw [Nat.zero_add, ← linesOf_eq] at hsame
    exact hsame
  · obtain ⟨start, rfl⟩ := List.getLast?_eq_some_iff.mp hlast
    have hcount : (start.splitOn '\n').length = (start ++ ['\n']).count '\n' := by
      rw [Text.length_splitOn_lineFeed, List.count_append]
      rfl
    have hblank (number : Nat) : ([[]].zipIdx number).filterMap Line.ofRaw? = [] := rfl
    rw [linesOf_eq, linesOf_eq, linesOf_eq, List.append_assoc, List.singleton_append,
      List.splitOn_append_cons_self, List.splitOn_append_cons_self, List.splitOn_nil,
      List.zipIdx_append, List.zipIdx_append, List.filterMap_append, List.filterMap_append,
      hblank, List.append_nil, ← filterMap_ofRaw?_later, hcount, Nat.add_comm 1]

end Multisearch

end Semijoin
