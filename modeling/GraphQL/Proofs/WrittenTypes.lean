import GraphQL.Document.Located
import GraphQL.Proofs.HeaderLayouts

/-! Types as they are written, with gaps of any length between the tokens. A list begins at its
bracket and a mark stands behind the type that it marks, so a type is written from the point of
its outermost bracket, or of its name. From there on, the place of every level is found. -/
namespace GraphQL
open Header Text

namespace TypeRef

/-- The places of the lists, from the outside in, and of the name. -/
def levels : TypeRef → List Position
  | named type => [type.position]
  | list place inner => place :: inner.levels
  | nonNull _ inner => inner.levels

def MarksBeside : TypeRef → Prop
  | named _ => True
  | list _ inner => inner.MarksBeside
  | nonNull place inner => place = inner.position ∧ inner.MarksBeside

def unplaced : TypeRef → TypeRef
  | named type => named ⟨.start, type.name⟩
  | list _ inner => list .start inner.unplaced
  | nonNull _ inner => nonNull .start inner.unplaced

theorem eq_of_levels {type other : TypeRef} (shape : type.unplaced = other.unplaced)
    (levels : type.levels = other.levels) (beside : type.MarksBeside)
    (beside' : other.MarksBeside) : type = other := by
  induction type generalizing other with
  | named named =>
      cases other with
      | named named' =>
          rcases named with ⟨place, name⟩
          rcases named' with ⟨place', name'⟩
          cases shape
          cases levels
          rfl
      | list => cases shape
      | nonNull => cases shape
  | list place inner ih =>
      cases other with
      | named => cases shape
      | list place' inner' =>
          obtain ⟨same, levels⟩ : place = place' ∧ inner.levels = inner'.levels :=
            List.cons.inj levels
          rw [same, ih (list.inj shape).2 levels beside beside']
      | nonNull => cases shape
  | nonNull place inner ih =>
      cases other with
      | named => cases shape
      | list => cases shape
      | nonNull place' inner' =>
          have same := ih (nonNull.inj shape).2 levels beside.2 beside'.2
          rw [beside.1, beside'.1, same]

end TypeRef

/-- A text that a type is written in, with the points of its brackets and of its name, and the
rest behind it. -/
inductive TypeText : TypeRef → List (List Char) → List Char → List Char → Prop where
  | named {type : NamedType} {text rest : List Char} (name : NameText type.name text rest) :
      TypeText (.named type) [text] text rest
  | list {place : Position} {inner : TypeRef} {points : List (List Char)}
      {opening closing text rest : List Char} (gap : Ignored opening)
      (inside : TypeText inner points text (closing ++ ']' :: rest)) (gap' : Ignored closing) :
      TypeText (.list place inner) (('[' :: (opening ++ text)) :: points)
        ('[' :: (opening ++ text)) rest
  | nonNull {place : Position} {inner : TypeRef} {points : List (List Char)}
      {passed text rest : List Char} (inside : TypeText inner points text (passed ++ '!' :: rest))
      (gap : Ignored passed) : TypeText (.nonNull place inner) points text rest

section Writing
variable {type : TypeRef} {points : List (List Char)} {text rest : List Char}

theorem TypeText.starts (written : TypeText type points text rest) :
    ∃ c tail, text = c :: tail ∧ StartsToken c := by
  induction written with
  | named name =>
      obtain ⟨c, tail, rfl, starts, _⟩ := name.parts
      exact ⟨c, tail, rfl, name_starts_token starts⟩
  | list => exact ⟨'[', _, rfl, by decide⟩
  | nonNull _ _ ih => exact ih

theorem TypeText.suffixes (written : TypeText type points text rest) :
    ∀ point ∈ points, point <:+ text := by
  induction written with
  | named => exact List.forall_mem_singleton.mpr (List.suffix_refl _)
  | @list place inner points opening closing text rest gap inside gap' ih =>
      refine List.forall_mem_cons.mpr ⟨List.suffix_refl _, fun point listed => ?_⟩
      exact (ih point listed).trans ⟨'[' :: opening, rfl⟩
  | nonNull _ _ ih => exact ih

theorem text_is_written {c : Char} {word : List Char} (type : TypeRef)
    (name : type.innermost.name = String.ofList (c :: word)) (starts : isNameStart c = true)
    (parts : ∀ d ∈ word, isNamePart d = true)
    (ends : ∀ d tail, rest = d :: tail → isNamePart d = false) :
    ∃ points, TypeText type points (type.text.toList ++ rest) rest := by
  induction type generalizing rest with
  | named type =>
      have called : type.name = String.ofList (c :: word) := name
      refine ⟨_, .named ?_⟩
      rw [TypeRef.text, called, String.toList_ofList, List.cons_append]
      exact .name starts parts ends
  | list place inner ih =>
      obtain ⟨points, inside⟩ := @ih (']' :: rest) name (by rintro d tail ⟨⟩; rfl)
      have text : (TypeRef.list place inner).text.toList ++ rest =
          '[' :: ([] ++ (inner.text.toList ++ ([] ++ ']' :: rest))) := by
        simp [TypeRef.text]
      rw [text]
      exact ⟨_, .list .none inside .none⟩
  | nonNull place inner ih =>
      obtain ⟨points, inside⟩ := @ih ('!' :: rest) name (by rintro d tail ⟨⟩; rfl)
      have text : (TypeRef.nonNull place inner).text.toList ++ rest =
          inner.text.toList ++ '!' :: rest := by
        simp [TypeRef.text]
      rw [text]
      exact ⟨points, @TypeText.nonNull place inner points [] _ rest inside .none⟩

end Writing

section Locating
variable {type : TypeRef} {points : List (List Char)} {point rest : List Char}

theorem locate_unplaced (text : List Char) (enclosing : Position) (point : Option (List Char))
    (type : TypeRef) : (type.locate text enclosing point).unplaced = type.unplaced := by
  induction type generalizing enclosing point with
  | named => rfl
  | list place inner ih => exact congrArg (TypeRef.list .start) (ih _ _)
  | nonNull place inner ih => exact congrArg (TypeRef.nonNull .start) (ih _ _)

theorem locate_marks (text : List Char) (enclosing : Position) (point : Option (List Char))
    (type : TypeRef) : (type.locate text enclosing point).MarksBeside := by
  induction type generalizing enclosing point with
  | named => trivial
  | list place inner ih => exact ih _ _
  | nonNull place inner ih => exact ⟨rfl, ih _ _⟩

theorem TypeText.located (written : TypeText type points point rest) (text : List Char)
    (enclosing : Position) :
    (type.locate text enclosing (some point)).levels = points.map (Ruler.placeOf text) := by
  induction written generalizing enclosing with
  | @named type point rest name =>
      obtain ⟨_, named, leads⟩ := name.after
      have found : namePlace? text (some point) type.name = some (Ruler.placeOf text point) := by
        simp [namePlace?, named, leads]
      simp only [TypeRef.locate, NamedType.locate, found, TypeRef.levels, Option.getD_some,
        List.map_cons, List.map_nil]
  | @list place inner points opening closing point rest gap inside gap' ih =>
      obtain ⟨c, tail, rfl, starts⟩ := inside.starts
      have bracket : bracketPoint (some ('[' :: (opening ++ c :: tail))) =
          some ('[' :: (opening ++ c :: tail)) := rfl
      have behind : steps ('[' :: (opening ++ c :: tail)) [.punct '['] = some (c :: tail) :=
        layouts_are_passed (.step (@Written.punct [] _ '[' .none (by decide)) (.token gap starts))
      simp only [TypeRef.locate, bracket, Option.bind_some, behind, TypeRef.levels, Option.map_some,
        Option.getD_some, ih, List.map_cons]
  | nonNull inside gap ih => exact ih enclosing

/-- A type that is written somewhere in a text is located level by level: each list at its
bracket, the name where it is, each mark where the type stands that it marks. The place around the
type makes no difference. -/
theorem levels_stand_at_tokens (written : TypeText type points point rest) (before : List Char)
    (enclosing : Position) :
    let text := before ++ point
    let located := type.locate text enclosing (some point)
    located.unplaced = type.unplaced ∧
      (located.levels = points.map (Ruler.placeOf text) ∧ ∀ token ∈ points, token <:+ text) ∧
      located.MarksBeside ∧
      ∀ other, type.locate text other (some point) = located := by
  intro text located
  have levels := written.located text
  refine ⟨locate_unplaced .., ⟨levels enclosing, fun token listed => ?_⟩, locate_marks .., ?_⟩
  · exact (written.suffixes token listed).trans (List.suffix_append before point)
  · intro other
    have shape := (locate_unplaced text other (some point) type).trans
      (locate_unplaced text enclosing (some point) type).symm
    exact TypeRef.eq_of_levels shape ((levels other).trans (levels enclosing).symm)
      (locate_marks ..) (locate_marks ..)

/-- Two lists and two marks, with a line end, a tab and a comment between the tokens. -/
theorem levels_behind_comment :
    let inner : TypeRef := .list .start (.nonNull .start (.named ⟨.start, "Int"⟩))
    let type : TypeRef := .nonNull .start (.list .start inner)
    let comment := ['#', '[', '\n']
    let name := ['I', 'n', 't', ' ', '!', ']', ']', ',', '!', ')']
    let list := '[' :: ('\t' :: name)
    let point := '[' :: (comment ++ list)
    let before := ['(', 'a', ':', ' ']
    let text := before ++ point
    let located : TypeRef :=
      .nonNull ⟨1, 5⟩ (.list ⟨1, 5⟩ (.list ⟨2, 1⟩ (.nonNull ⟨2, 10⟩ (.named ⟨⟨2, 10⟩, "Int"⟩))))
    TypeText type [point, list, name] point [')'] ∧
      type.locate text ⟨7, 7⟩ (some point) = located ∧
      located.levels = [point, list, name].map (Ruler.placeOf text) := by
  intro inner type comment name list point before text located
  have space : Ignored [' '] := .char rfl .none
  have commented : Ignored comment :=
    @Ignored.comment ['['] [] '\n' (by simp [isLineEnd]) rfl (.char rfl .none)
  have called : NameText "Int" name [' ', '!', ']', ']', ',', '!', ')'] :=
    @NameText.name 'I' ['n', 't'] _ rfl
      (List.forall_mem_cons.mpr ⟨rfl, List.forall_mem_singleton.mpr rfl⟩) (by rintro _ _ ⟨⟩; rfl)
  have marked : TypeText (.nonNull .start (.named ⟨.start, "Int"⟩)) [name] name
      [']', ']', ',', '!', ')'] := .nonNull (.named called) space
  have inside : TypeText inner [list, name] list [']', ',', '!', ')'] :=
    @TypeText.list _ _ _ ['\t'] [] _ _ (.char rfl .none) marked .none
  have outside : TypeText (.list .start inner) [point, list, name] point [',', '!', ')'] :=
    @TypeText.list _ _ _ comment [] _ _ commented inside .none
  have written : TypeText type [point, list, name] point [')'] :=
    @TypeText.nonNull _ _ _ [','] _ _ outside (.char rfl .none)
  obtain ⟨shape, ⟨levels, -⟩, beside, -⟩ := levels_stand_at_tokens written before ⟨7, 7⟩
  have places : [point, list, name].map (Ruler.placeOf text) = [⟨1, 5⟩, ⟨2, 1⟩, ⟨2, 10⟩] := by
    decide
  refine ⟨written, ?_, places.symm⟩
  exact TypeRef.eq_of_levels shape (levels.trans places) beside ⟨rfl, rfl, trivial⟩

end Locating
end GraphQL
