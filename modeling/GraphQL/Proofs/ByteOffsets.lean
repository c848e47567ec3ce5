import GraphQL.Text.StringValue
import Mathlib.Data.List.Infix

/-! Points of a text and byte offsets. A point is what is left to read; its offset is the number
of bytes in front of it. A slice of a text begins and ends where a character begins or the text
ends: at any other offset there is nothing to be had, and these offsets are those of points. -/
namespace GraphQL
open StringValue (bytes)

section Slices

/-- What is left of a text from an offset on. -/
def restFrom? : List Char → Nat → Option (List Char)
  | text, 0 => some text
  | [], _ + 1 => none
  | c :: rest, offset + 1 =>
      if offset + 1 < c.utf8Size then none else restFrom? rest (offset + 1 - c.utf8Size)

/-- What stands between two offsets of a text. -/
def between? (text : List Char) (first last : Nat) : Option (List Char) := do
  let rest ← restFrom? text first
  let behind ← restFrom? text last
  if first ≤ last then some (rest.take (rest.length - behind.length)) else none

def offsetOf (text point : List Char) : Nat := bytes text - bytes point

/-- An offset that is not in front of another one and at which the text can be cut. -/
structure Ahead (text : List Char) (offset next : Nat) : Prop where
  cut : (restFrom? text next).isSome
  onward : offset ≤ next
  inside : next ≤ bytes text

end Slices

section Points
variable {text before passed point next rest : List Char} {c : Char} {offset : Nat}

theorem bytes_append (before rest : List Char) :
    bytes (before ++ rest) = bytes before + bytes rest := by
  induction before with
  | nil => exact (Nat.zero_add _).symm
  | cons c before ih => rw [List.cons_append, bytes, bytes, ih, Nat.add_assoc]

theorem rest_from_cons (c : Char) (rest : List Char) (offset : Nat) :
    restFrom? (c :: rest) (c.utf8Size + offset) = restFrom? rest offset := by
  have some := c.utf8Size_pos
  obtain ⟨size, same⟩ : ∃ size, c.utf8Size + offset = size + 1 :=
    Nat.exists_eq_add_one.mpr (Nat.add_pos_left some offset)
  rw [same, restFrom?, ← same, if_neg (Nat.not_lt.mpr (Nat.le_add_right _ _)),
    Nat.add_sub_cancel_left]

theorem rest_from_append (before rest : List Char) :
    restFrom? (before ++ rest) (bytes before) = some rest := by
  induction before with
  | nil => rw [List.nil_append, bytes, restFrom?]
  | cons c before ih => rw [List.cons_append, bytes, rest_from_cons, ih]

theorem offset_of_append (before rest : List Char) :
    offsetOf (before ++ rest) rest = bytes before := by
  rw [offsetOf, bytes_append, Nat.add_sub_cancel]

theorem split_of_rest_from (found : restFrom? text offset = some point) :
    ∃ before, text = before ++ point ∧ offset = bytes before := by
  induction text, offset using restFrom?.induct with
  | case1 text =>
      rw [restFrom?] at found
      cases found
      exact ⟨[], rfl, rfl⟩
  | case2 => cases found
  | case3 c rest offset inside =>
      rw [restFrom?, if_pos inside] at found
      cases found
  | case4 c rest offset outside ih =>
      rw [restFrom?, if_neg outside] at found
      obtain ⟨before, rfl, same⟩ := ih found
      refine ⟨c :: before, rfl, ?_⟩
      rw [bytes, ← same]
      omega

/-- The offsets at which a text can be cut are those of its points. -/
theorem rest_from_iff :
    restFrom? text offset = some point ↔ point <:+ text ∧ offsetOf text point = offset := by
  constructor
  · intro found
    obtain ⟨before, rfl, rfl⟩ := split_of_rest_from found
    exact ⟨⟨before, rfl⟩, offset_of_append before point⟩
  · rintro ⟨⟨before, rfl⟩, rfl⟩
    rw [offset_of_append, rest_from_append]

theorem rest_from_point (within : point <:+ text) :
    restFrom? text (offsetOf text point) = some point :=
  rest_from_iff.mpr ⟨within, rfl⟩

theorem offset_passed (passed : List Char) (within : passed ++ rest <:+ text) :
    offsetOf text (passed ++ rest) + bytes passed = offsetOf text rest := by
  obtain ⟨before, rfl⟩ := within
  rw [offset_of_append, ← List.append_assoc, offset_of_append, bytes_append]

theorem offset_cons (within : c :: rest <:+ text) :
    offsetOf text (c :: rest) + c.utf8Size = offsetOf text rest :=
  offset_passed [c] within

theorem suffix_of_append (passed : List Char) (within : passed ++ rest <:+ text) : rest <:+ text :=
  (List.suffix_append passed rest).trans within

theorem suffix_of_cons (within : c :: rest <:+ text) : rest <:+ text :=
  (List.suffix_cons c rest).trans within

theorem between_points (within : passed ++ rest <:+ text) :
    between? text (offsetOf text (passed ++ rest)) (offsetOf text rest) = some passed := by
  have later : offsetOf text (passed ++ rest) ≤ offsetOf text rest :=
    Nat.le.intro (offset_passed passed within)
  rw [between?, rest_from_point within, rest_from_point (suffix_of_append passed within)]
  simp [later]

end Points

section Progress
variable {text point next : List Char}

/-- Points on the way to the end of the text have offsets on that way. -/
theorem ahead_of_suffix (within : point <:+ text) (behind : next <:+ point) :
    Ahead text (offsetOf text point) (offsetOf text next) := by
  obtain ⟨passed, rfl⟩ := behind
  refine ⟨?_, Nat.le.intro (offset_passed passed within), Nat.sub_le _ _⟩
  rw [rest_from_point (suffix_of_append passed within)]
  rfl

theorem offset_lt (within : point <:+ text) (behind : next <:+ point)
    (shorter : next.length < point.length) : offsetOf text point < offsetOf text next := by
  obtain ⟨passed, rfl⟩ := behind
  rw [← offset_passed passed within]
  cases passed with
  | nil => exact absurd shorter (Nat.lt_irrefl _)
  | cons c passed =>
      rw [bytes]
      have some := c.utf8Size_pos
      omega

end Progress
end GraphQL
