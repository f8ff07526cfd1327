import Temnion.Library.Text

/-
This file cuts a text into its lines and removes what stands around a value.
-/

namespace Text

def isBreak (character : Char) : Bool := character == '\n'

/-- A carriage return before a line break belongs to the break. -/
def stripReturn (line : Text) : Text := if line.getLast? = some '\r' then line.dropLast else line

/-- The lines of a text. What follows the last line break is a line unless it is empty. -/
def lines (text : Text) : List Text :=
  let parts := text.splitOnP isBreak
  let last := parts.getLast?.getD []
  parts.dropLast.map stripReturn ++ (if last = [] then [] else [last])

/-- Line breaks stand between lines only. -/
def Unbroken (text : Text) : Prop := ∀ character ∈ text, isBreak character = false

section Lines

variable {text line : Text}

theorem unbroken_of_all (plain : text.all (!isBreak ·) = true) : Unbroken text := fun character member =>
  Bool.not_eq_true' _ ▸ List.all_eq_true.mp plain character member

theorem splitOnP_lines {lines : List Text} (unbroken : ∀ line ∈ lines, Unbroken line) :
    (lines.flatMap (· ++ ['\n'])).splitOnP isBreak = lines ++ [[]] := by
  induction lines with
  | nil => rfl
  | cons line lines hypothesis =>
      obtain ⟨first, others⟩ := List.forall_mem_cons.mp unbroken
      rw [List.flatMap_cons, List.append_assoc, List.singleton_append,
        List.splitOnP_append_cons_of_forall_mem first '\n' rfl, hypothesis others, List.cons_append]

/-- Lines that end with a line break are found again. -/
theorem lines_flatMap {lines : List Text}
    (plain : ∀ line ∈ lines, Unbroken line ∧ line.getLast? ≠ some '\r') :
    Text.lines (lines.flatMap (· ++ ['\n'])) = lines := by
  unfold Text.lines
  rw [splitOnP_lines fun line member => (plain line member).1]
  have last : (lines ++ [[]]).getLast?.getD [] = ([] : Text) := by rw [List.getLast?_concat, Option.getD_some]
  dsimp only
  rw [last, if_pos rfl, List.append_nil, List.dropLast_concat]
  calc lines.map stripReturn = lines.map id := List.map_congr_left fun line member => if_neg (plain line member).2
    _ = lines := List.map_id lines

theorem unbroken_of_mem_splitOnP (member : line ∈ text.splitOnP isBreak) : Unbroken line := by
  induction text generalizing line with
  | nil =>
      rw [List.splitOnP_nil, List.mem_singleton] at member
      rw [member]
      exact fun _ inside => absurd inside List.not_mem_nil
  | cons character text hypothesis =>
      rw [List.splitOnP_cons_eq_if_modifyHead] at member
      split at member
      · rcases List.mem_cons.mp member with rfl | later
        · exact fun _ inside => absurd inside List.not_mem_nil
        · exact hypothesis later
      · next plain =>
          cases parts : text.splitOnP isBreak with
          | nil => exact absurd parts (List.splitOnP_ne_nil _ _)
          | cons first others =>
              rw [parts] at member hypothesis
              rcases List.mem_cons.mp member with rfl | later
              · have first := hypothesis List.mem_cons_self
                exact List.forall_mem_cons.mpr ⟨Bool.eq_false_iff.mpr plain, first⟩
              · exact hypothesis (List.mem_cons_of_mem _ later)

/-- A line has no line break. -/
theorem unbroken_of_mem_lines (member : line ∈ text.lines) : Unbroken line := by
  unfold lines at member
  rcases List.mem_append.mp member with inside | behind
  · obtain ⟨part, present, rfl⟩ := List.mem_map.mp inside
    have whole := unbroken_of_mem_splitOnP (List.mem_of_mem_dropLast present)
    unfold stripReturn
    split
    · exact fun character found => whole character (List.mem_of_mem_dropLast found)
    · exact whole
  · split at behind
    · exact absurd behind List.not_mem_nil
    · rw [List.mem_singleton] at behind
      rw [behind]
      cases last : (text.splitOnP isBreak).getLast? with
      | none => exact fun _ inside => absurd inside List.not_mem_nil
      | some part => exact unbroken_of_mem_splitOnP (List.mem_of_getLast? last)

theorem Unbroken.sublist {part : Text} (unbroken : Unbroken text) (within : part.Sublist text) : Unbroken part :=
  fun character member => unbroken character (within.subset member)

end Lines

section Trim

variable {text : Text} {quote : Char}

theorem trim_sublist (text : Text) : (trim text).Sublist text :=
  (List.rdropWhile_prefix _ _).sublist.trans (List.dropWhile_sublist _)

theorem trimMatches_sublist (wanted : Char) (text : Text) : (trimMatches wanted text).Sublist text :=
  (List.rdropWhile_prefix _ _).sublist.trans (List.dropWhile_sublist _)

theorem unspaced_of_all (plain : text.all (!isWhitespace ·) = true) :
    ∀ character ∈ text, isWhitespace character = false := fun character member =>
  Bool.not_eq_true' _ ▸ List.all_eq_true.mp plain character member

/-- A text without white space is not trimmed. -/
theorem trim_unspaced (plain : ∀ character ∈ text, isWhitespace character = false) : trim text = text := by
  have start : trimStart text = text := by
    cases text with
    | nil => rfl
    | cons first rest =>
        exact List.dropWhile_cons_of_neg (Bool.eq_false_iff.mp (plain first List.mem_cons_self))
  rw [trim, start, trimEnd, List.rdropWhile_eq_self_iff]
  intro nonempty
  rw [plain _ (List.getLast_mem nonempty)]
  exact Bool.false_ne_true

/-- The white space around a text is removed, when the text starts and ends with other characters. -/
theorem trim_surrounded {before after : Text} (blankBefore : ∀ character ∈ before, isWhitespace character = true)
    (blankAfter : ∀ character ∈ after, isWhitespace character = true) (some' : text ≠ [])
    (starts : ∀ character ∈ text.head?, isWhitespace character = false)
    (ends : ∀ character ∈ text.getLast?, isWhitespace character = false) :
    trim (before ++ (text ++ after)) = text := by
  have front : trimStart (before ++ (text ++ after)) = text ++ after := by
    rw [trimStart, List.dropWhile_append_of_pos blankBefore]
    cases text with
    | nil => exact absurd rfl some'
    | cons character rest =>
        exact List.dropWhile_cons_of_neg (Bool.eq_false_iff.mp (starts character rfl))
  have back : (text ++ after).rdropWhile isWhitespace = text.rdropWhile isWhitespace := by
    rw [List.rdropWhile, List.reverse_append, List.dropWhile_append_of_pos]
    · rfl
    · exact fun character member => blankAfter character (List.mem_reverse.mp member)
  rw [trim, front, trimEnd, back, List.rdropWhile_eq_self_iff]
  intro nonempty
  rw [ends _ (List.getLast?_eq_some_getLast nonempty)]
  exact Bool.false_ne_true

/-- Nothing is removed exactly from a text that neither starts nor ends with the character. -/
theorem trimMatches_eq_self : trimMatches quote text = text ↔ text.head? ≠ some quote ∧ text.getLast? ≠ some quote := by
  constructor
  · intro same
    have front : text.dropWhile (· == quote) = text :=
      (List.dropWhile_sublist _).eq_of_length_le (by
        have shorter : (trimMatches quote text).length ≤ (text.dropWhile (· == quote)).length :=
          (List.rdropWhile_prefix _ _).sublist.length_le
        rwa [same] at shorter)
    have back : text.rdropWhile (· == quote) = text := by
      rw [trimMatches, front] at same
      exact same
    constructor
    · intro starts
      obtain ⟨rest, rfl⟩ := List.head?_eq_some_iff.mp starts
      rw [List.dropWhile_cons, if_pos (beq_self_eq_true quote)] at front
      have longer : (rest.dropWhile (· == quote)).length ≤ rest.length := (List.dropWhile_sublist _).length_le
      rw [front, List.length_cons] at longer
      omega
    · intro ends
      obtain ⟨rest, rfl⟩ := List.getLast?_eq_some_iff.mp ends
      exact List.rdropWhile_eq_self_iff.mp back (by simp) (by simp)
  · rintro ⟨starts, ends⟩
    have front : text.dropWhile (· == quote) = text := by
      cases text with
      | nil => rfl
      | cons character rest =>
          exact List.dropWhile_cons_of_neg fun same => starts (congrArg some (beq_iff_eq.mp same))
    rw [trimMatches, front, List.rdropWhile_eq_self_iff]
    intro some' same
    exact ends ((List.getLast?_eq_some_getLast some').trans (congrArg some (beq_iff_eq.mp same)))

/-- One character at each end is removed with its like. -/
theorem trimMatches_surrounded (quote : Char) (text : Text) :
    trimMatches quote (quote :: (text ++ [quote])) = trimMatches quote text := by
  unfold trimMatches
  rw [List.dropWhile_cons, if_pos (beq_self_eq_true quote), List.dropWhile_append]
  split
  · next all =>
      have none' : text.dropWhile (· == quote) = [] := List.isEmpty_iff.mp all
      rw [none', List.dropWhile_cons, if_pos (beq_self_eq_true quote)]
      rfl
  · rw [List.rdropWhile_concat, if_pos (beq_self_eq_true quote)]

end Trim

theorem startsWith_singleton (wanted first : Char) (rest : Text) :
    startsWith (first :: rest) [wanted] = (wanted == first) := by
  rw [startsWith, List.isPrefixOf, List.isPrefixOf, Bool.and_true]

/-- A text is cut where the first character of the separator first stands. -/
theorem splitOnce_at {first : Char} {front more rest : Text} (absent : first ∉ front) :
    splitOnce (first :: more) (front ++ first :: (more ++ rest)) = some (front, rest) := by
  induction front with
  | nil =>
      rw [List.nil_append, splitOnce, if_pos (by simp)]
      simp
  | cons character front hypothesis =>
      rw [List.mem_cons, not_or] at absent
      rw [List.cons_append, splitOnce, if_neg (by simp [absent.1]), hypothesis absent.2]
      rfl

/-- A text is cut at the first place of a character. -/
theorem splitOnce_append {separator : Char} {front rest : Text} (absent : separator ∉ front) :
    splitOnce [separator] (front ++ separator :: rest) = some (front, rest) := splitOnce_at absent

/-- A text without the first character of the separator is not cut. -/
theorem splitOnce_eq_none {first : Char} {more text : Text} (absent : first ∉ text) :
    splitOnce (first :: more) text = none := by
  induction text with
  | nil => rw [splitOnce, if_neg (List.cons_ne_nil _ _)]
  | cons character text hypothesis =>
      rw [List.mem_cons, not_or] at absent
      rw [splitOnce, if_neg (by simp [absent.1]), hypothesis absent.2]
      rfl

theorem splitOnce_sublist {separator text front rest : Text} (split : splitOnce separator text = some (front, rest)) :
    rest.Sublist text := by
  induction text generalizing front with
  | nil =>
      rw [splitOnce] at split
      split at split
      · obtain ⟨-, rfl⟩ := Prod.mk.inj (Option.some.inj split)
        exact List.Sublist.refl _
      · contradiction
  | cons character text hypothesis =>
      rw [splitOnce] at split
      split at split
      · obtain ⟨-, rfl⟩ := Prod.mk.inj (Option.some.inj split)
        exact List.drop_sublist _ _
      · rw [Option.map_eq_some_iff] at split
        obtain ⟨parts, found, same⟩ := split
        obtain ⟨-, rfl⟩ := Prod.mk.inj same
        exact (hypothesis found).cons character

end Text
