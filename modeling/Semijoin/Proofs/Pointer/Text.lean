import Mathlib.Data.List.Nodup
import Semijoin.Pointer

/-!
# The texts of places

The text of a pointer is cut at its slashes into the texts of its segments, for no slash is left in
an escaped key. The text of a segment is that of a key or of a position, and the value that the
segment leads into tells which of the two. So the places of a document are told apart by their
texts, except that a slash alone is the text of the whole document and of the member of it that has
the empty key.
-/

namespace Semijoin

namespace Segment

/-- The key that an escaped key stands for. -/
def unescape : List Char → List Char
  | '~' :: '0' :: rest => '~' :: unescape rest
  | '~' :: '1' :: rest => '/' :: unescape rest
  | c :: rest => c :: unescape rest
  | [] => []

/-- A character that is no tilde stands for itself. -/
theorem unescape_cons {c : Char} (hc : c ≠ '~') (rest : List Char) :
    unescape (c :: rest) = c :: unescape rest := by
  rw [unescape] <;> exact fun _ htilde => absurd htilde hc

/-- A character is read back from its escape. -/
theorem unescape_charChars_append (c : Char) (rest : List Char) :
    unescape (charChars c ++ rest) = c :: unescape rest := by
  by_cases htilde : c = '~'
  · rw [htilde]
    rfl
  · by_cases hslash : c = '/'
    · rw [hslash]
      rfl
    · rw [charChars, if_neg htilde, if_neg hslash]
      exact unescape_cons htilde rest

/-- Escaping is undone character by character. -/
theorem unescape_flatMap_charChars (text : List Char) :
    unescape (text.flatMap charChars) = text := by
  induction text with
  | nil => rfl
  | cons c rest ih => rw [List.flatMap_cons, unescape_charChars_append, ih]

/-- The escape of a character has no slash. -/
theorem slash_notMem_charChars (c : Char) : '/' ∉ charChars c := by
  by_cases htilde : c = '~'
  · rw [htilde]
    decide
  · by_cases hslash : c = '/'
    · rw [hslash]
      decide
    · rw [charChars, if_neg htilde, if_neg hslash, List.mem_singleton]
      exact Ne.symm hslash

/-- The text of a segment has no slash. -/
theorem slash_notMem_chars (segment : Segment) : '/' ∉ segment.chars := by
  cases segment with
  | key name =>
    intro h
    obtain ⟨c, -, hc⟩ := List.mem_flatMap.mp h
    exact slash_notMem_charChars c hc
  | index position =>
    intro h
    have hdigit := Nat.isDigit_of_mem_toDigits (by decide) (by decide) h
    exact absurd hdigit (by decide)

/-- Only the empty key has an empty text. -/
theorem chars_eq_nil_iff {segment : Segment} : segment.chars = [] ↔ segment = .key "" := by
  constructor
  · intro h
    cases segment with
    | key name =>
      have hname := congrArg unescape h
      rw [chars, unescape_flatMap_charChars] at hname
      rw [String.toList_eq_nil_iff.mp hname]
    | index position => exact absurd h Nat.toDigits_ne_nil
  · rintro rfl
    rfl

/-- The segment that has a text and leads into a value. -/
def ofChars (value : Json) (text : List Char) : Segment :=
  match value with
  | .array _ => .index (Nat.ofDigitChars 10 text 0)
  | _ => .key (String.ofList (unescape text))

/-- A segment that leads into a value is read back from its text. -/
theorem ofChars_chars {segment : Segment} {value part : Json}
    (h : Pointer.resolve? [segment] value = some part) :
    ofChars value segment.chars = segment := by
  cases segment with
  | key name =>
    cases value with
    | object members =>
      simp only [ofChars, chars, unescape_flatMap_charChars, String.ofList_toList]
    | _ => cases h
  | index position =>
    cases value with
    | array items => rw [ofChars, chars, Nat.ofDigitChars_toDigits (by decide) (by decide)]
    | _ => cases h

end Segment

namespace Pointer

variable {p q : Pointer} {value document part part' : Json}

/-- Two pointers into a value are one if their segments have the same texts. -/
theorem eq_of_map_chars_eq (hp : p.resolve? value = some part) (hq : q.resolve? value = some part')
    (h : p.map Segment.chars = q.map Segment.chars) : p = q := by
  induction p generalizing q value with
  | nil => exact (List.map_eq_nil_iff.mp h.symm).symm
  | cons segment rest ih =>
    cases q with
    | nil => cases h
    | cons segment' rest' =>
      obtain ⟨hchars, hrest⟩ := List.cons.inj h
      rw [← List.singleton_append, resolve?_append, Option.bind_eq_bind,
        Option.bind_eq_some_iff] at hp hq
      obtain ⟨inner, hinner, hp⟩ := hp
      obtain ⟨inner', hinner', hq⟩ := hq
      have hsegment : segment = segment' := by
        rw [← Segment.ofChars_chars hinner, ← Segment.ofChars_chars hinner', hchars]
      rw [← hsegment, hinner] at hinner'
      cases hinner'
      rw [hsegment, ih hp hq hrest]

/-- Behind a text without slashes every segment adds its text to what the slashes separate. -/
theorem splitOn_append_flatMap_chars {before : List Char} (hbefore : '/' ∉ before) (p : Pointer) :
    (before ++ p.flatMap fun segment => '/' :: segment.chars).splitOn '/' =
      before :: p.map Segment.chars := by
  induction p generalizing before with
  | nil =>
    rw [List.flatMap_nil, List.append_nil, List.splitOn_eq_singleton hbefore]
    rfl
  | cons segment rest ih =>
    rw [List.flatMap_cons, List.cons_append, List.splitOn_append_cons_self_of_not_mem hbefore,
      ih segment.slash_notMem_chars]
    rfl

/-- The slashes in the text of a place inside a document separate the texts of its segments. -/
theorem splitOn_text (hp : p ≠ root) :
    p.text.toList.splitOn '/' = [] :: p.map Segment.chars := by
  obtain ⟨segment, rest, rfl⟩ := List.exists_cons_of_ne_nil hp
  have htext : text (segment :: rest) =
      String.ofList ((segment :: rest).flatMap fun segment => '/' :: segment.chars) := rfl
  rw [htext, String.toList_ofList]
  exact splitOn_append_flatMap_chars List.not_mem_nil (segment :: rest)

/-- A slash alone is the text of the whole document, and of the member that has the empty key. -/
theorem text_eq_slash_iff : p.text = "/" ↔ p = root ∨ p = root.key "" := by
  constructor
  · intro h
    by_cases hp : p = root
    · exact .inl hp
    · have hsplit := splitOn_text hp
      rw [h] at hsplit
      have hchars : p.map Segment.chars = [[]] := (List.cons.inj hsplit).2.symm
      obtain ⟨segment, rfl, hsegment⟩ := List.map_eq_singleton_iff.mp hchars
      rw [Segment.chars_eq_nil_iff.mp hsegment]
      exact .inr rfl
  · rintro (rfl | rfl) <;> rfl

/-- Two places of a document have the same text exactly if they are one place, or one of them is the
whole document and the other one the member of it that has the empty key. -/
theorem text_eq_text_iff (hp : p.resolve? document = some part)
    (hq : q.resolve? document = some part') :
    p.text = q.text ↔ p = q ∨ p = root ∧ q = root.key "" ∨ p = root.key "" ∧ q = root := by
  constructor
  · intro h
    by_cases hproot : p = root
    · have hslash : q.text = "/" := h ▸ text_eq_slash_iff.mpr (.inl hproot)
      rcases text_eq_slash_iff.mp hslash with hq | hq
      · exact .inl (hproot.trans hq.symm)
      · exact .inr (.inl ⟨hproot, hq⟩)
    · by_cases hqroot : q = root
      · have hslash : p.text = "/" := h.trans (text_eq_slash_iff.mpr (.inl hqroot))
        exact .inr (.inr ⟨(text_eq_slash_iff.mp hslash).resolve_left hproot, hqroot⟩)
      · have hsplit := splitOn_text hproot
        rw [h, splitOn_text hqroot] at hsplit
        exact .inl (eq_of_map_chars_eq hp hq (List.cons.inj hsplit).2.symm)
  · rintro (rfl | ⟨rfl, rfl⟩ | ⟨rfl, rfl⟩) <;> rfl

/-- What is at different places of a document is told apart by the texts of these places, if the two
places that a slash alone stands for are not both among them. -/
theorem nodup_map_text {α : Type} {place : α → Pointer} {values : List α} (document : Json)
    (hdistinct : (values.map place).Nodup)
    (hresolve : ∀ value ∈ values, ∃ part, (place value).resolve? document = some part)
    (hslash : root ∈ values.map place → root.key "" ∉ values.map place) :
    (values.map fun value => (place value).text).Nodup := by
  refine (List.Nodup.of_map place hdistinct).map_on fun a ha b hb htext => ?_
  obtain ⟨part, hpart⟩ := hresolve a ha
  obtain ⟨part', hpart'⟩ := hresolve b hb
  have hmem := List.mem_map_of_mem (f := place) ha
  have hmem' := List.mem_map_of_mem (f := place) hb
  rcases (text_eq_text_iff hpart hpart').mp htext with heq | ⟨hroot, hkey⟩ | ⟨hkey, hroot⟩
  · exact List.inj_on_of_nodup_map hdistinct ha hb heq
  · exact absurd (hkey ▸ hmem') (hslash (hroot ▸ hmem))
  · exact absurd (hkey ▸ hmem) (hslash (hroot ▸ hmem'))

end Pointer

end Semijoin
