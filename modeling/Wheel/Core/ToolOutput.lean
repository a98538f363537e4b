import Wheel.Core.Envelope
import Wheel.Data.JsonMap

/-!
# Tool output

What an endpoint answers reaches an agent with every text of it wrapped: the tags of the
wrapper stand at both ends and, since the text between them is escaped, nowhere else. The
names of an object are wrapped too, and two names of an answer that differ only in a
backslash where the escape puts one become the same name. `tool_output_iff` says that this
is the only way to lose something.
-/

namespace Wheel

open Text

/-- The tag the wrapper delimits its text with. -/
def toolOutputTag : List Char := "wheel:tool-output".toList

def escapeToolOutputMarker (body : String) : String :=
  escapeTag body (toolOutputTag.map asciiByte)

/-- Wrap what came from outside the board. -/
def wrapToolOutput (body : String) : String :=
  "<wheel:tool-output>\n" ++ escapeToolOutputMarker body ++ "\n</wheel:tool-output>"

/-- One opening tag at the start of the text, and one closing tag at its end. -/
structure Wrapped (s : String) : Prop where
  starts : "<wheel:tool-output>".toList <+: s.toList
  ends : "</wheel:tool-output>".toList <:+ s.toList
  opening : occurrences "<wheel:tool-output".toList s.toList = [0]
  closing : occurrences "</wheel:tool-output".toList s.toList =
    [s.length - "</wheel:tool-output>".length]

/-! ## The wrapper -/

theorem isMark_toolOutputTag : IsMark toolOutputTag where
  nonempty := by decide
  angle := by decide
  slash := by decide
  backslash := by decide

theorem toList_escapeToolOutputMarker (body : String) :
    (escapeToolOutputMarker body).toList = escape toolOutputTag body.toList := by
  have hascii : ∀ c ∈ toolOutputTag, IsAscii c := by
    have hall : (toolOutputTag.all fun c => decide (IsAscii c)) = true := by decide
    exact fun c hc => of_decide_eq_true (List.all_eq_true.mp hall c hc)
  rw [escapeToolOutputMarker, escapeTag, String.toList_ofList, escapeFrom_encode hascii]

/-- What stands between the first `<` and the text. -/
def wrapperHead : List Char := "wheel:tool-output>\n".toList

/-- What stands behind the text. -/
def wrapperTail : List Char := "\n</wheel:tool-output>".toList

theorem toList_wrapToolOutput (body : String) :
    (wrapToolOutput body).toList =
      '<' :: (wrapperHead ++ escape toolOutputTag body.toList ++ wrapperTail) := by
  unfold wrapToolOutput wrapperHead wrapperTail
  rw [String.toList_append, String.toList_append, toList_escapeToolOutputMarker]
  simp only [String.reduceToList, List.cons_append, List.nil_append]

/-- What is not escaped and holds no `<` starts no tag. -/
theorem absentBefore_wrapperHead (needle y : List Char) :
    AbsentBefore ('<' :: needle) wrapperHead y := by
  apply absentBefore_of_head
  intro c hc
  apply toLower_ne_of_ne (by decide)
  rintro rfl
  exact absurd hc (by decide)

theorem occurrences_open_wrapToolOutput (body : String) :
    occurrences "<wheel:tool-output".toList (wrapToolOutput body).toList = [0] := by
  have habsent : AbsentBefore ('<' :: toolOutputTag)
      (wrapperHead ++ escape toolOutputTag body.toList) wrapperTail :=
    absentBefore_append (absentBefore_wrapperHead _ _)
      (absentBefore_open isMark_toolOutputTag (clean_escape isMark_toolOutputTag _) (by decide)
        (by decide) _)
  have hstart : startsWithCI ('<' :: toolOutputTag) (wrapToolOutput body).toList = true := by
    rw [toList_wrapToolOutput]
    rfl
  change occurrences ('<' :: toolOutputTag) _ = _
  rw [toList_wrapToolOutput] at hstart ⊢
  rw [occurrences, occurrencesFrom, if_pos hstart, occurrencesFrom_append habsent]
  rfl

theorem occurrences_close_wrapToolOutput (body : String) :
    occurrences "</wheel:tool-output".toList (wrapToolOutput body).toList =
      [(wrapToolOutput body).length - "</wheel:tool-output>".length] := by
  have habsent : AbsentBefore ('<' :: '/' :: toolOutputTag)
      (wrapperHead ++ escape toolOutputTag body.toList) wrapperTail :=
    absentBefore_append (absentBefore_wrapperHead _ _)
      (absentBefore_close (clean_escape isMark_toolOutputTag _) (by decide) (by decide) _)
  have hstart : startsWithCI ('<' :: '/' :: toolOutputTag) (wrapToolOutput body).toList =
      false := by
    rw [toList_wrapToolOutput]
    rfl
  have hline : ∀ k, occurrencesFrom ('<' :: '/' :: toolOutputTag) k wrapperTail = [k + 1] :=
    fun k => rfl
  have htail : wrapperTail.length = 21 := rfl
  have htag : "</wheel:tool-output>".length = 20 := rfl
  change occurrences ('<' :: '/' :: toolOutputTag) _ = _
  rw [← String.length_toList]
  rw [toList_wrapToolOutput] at hstart ⊢
  rw [occurrences, occurrencesFrom, if_neg (Bool.eq_false_iff.mp hstart),
    occurrencesFrom_append habsent, hline]
  generalize wrapperHead ++ escape toolOutputTag body.toList = front
  rw [List.length_cons, List.length_append, htail, htag]
  refine congrArg (fun k => [k]) ?_
  omega

/-- Whatever the text says, it cannot end its wrapper or start another. -/
theorem wrapped_wrapToolOutput (body : String) : Wrapped (wrapToolOutput body) where
  starts := by
    rw [toList_wrapToolOutput]
    exact ⟨'\n' :: (escape toolOutputTag body.toList ++ wrapperTail), rfl⟩
  ends := by
    rw [toList_wrapToolOutput]
    refine ⟨'<' :: (wrapperHead ++ escape toolOutputTag body.toList ++ ['\n']), ?_⟩
    rw [List.cons_append, List.append_assoc _ ['\n']]
    rfl
  opening := occurrences_open_wrapToolOutput body
  closing := occurrences_close_wrapToolOutput body

/-- Two texts are wrapped alike when they differ only in backslashes of the escape. -/
theorem wrapToolOutput_eq_iff (s t : String) :
    wrapToolOutput s = wrapToolOutput t ↔
      unescape toolOutputTag s.toList = unescape toolOutputTag t.toList := by
  rw [← escape_eq_iff isMark_toolOutputTag, ← String.toList_inj, toList_wrapToolOutput,
    toList_wrapToolOutput, List.cons_inj_right, List.append_left_inj, List.append_right_inj]

/-! ## An answer -/

/-- Of an answer nothing is lost, and each of its texts stands between one opening and one
closing tag, exactly when no object of it has two names that differ only in backslashes
between a `<` and the tag. -/
theorem tool_output_iff (v : Json) :
    (Json.Keeps wrapToolOutput v (Json.mapJsonStringsAndKeys wrapToolOutput v) ∧
        Json.AllTexts Wrapped (Json.mapJsonStringsAndKeys wrapToolOutput v)) ↔
      Json.Apart (fun k => unescape toolOutputTag k.toList) v := by
  rw [Json.keeps_mapJsonStringsAndKeys_iff wrapToolOutput_eq_iff]
  exact and_iff_left (Json.allTexts_mapJsonStringsAndKeys wrapped_wrapToolOutput v)

/-- An answer with a name and its escaped form. -/
def collidingAnswer : Json :=
  .obj [("<\\wheel:tool-output", .int 1), ("<wheel:tool-output", .int 2)]

theorem map_collidingAnswer :
    Json.mapJsonStringsAndKeys wrapToolOutput collidingAnswer =
      .obj [(wrapToolOutput "<wheel:tool-output", .int 2)] := by
  have hsame : wrapToolOutput "<\\wheel:tool-output" = wrapToolOutput "<wheel:tool-output" :=
    (wrapToolOutput_eq_iff _ _).mpr (by decide)
  change Json.obj (Json.collect [(wrapToolOutput "<\\wheel:tool-output", .int 1),
    (wrapToolOutput "<wheel:tool-output", .int 2)]) = _
  rw [hsame]
  simp [Json.collect, Json.insertMember]

/-- One of its two members is lost. -/
theorem tool_output_loses_member :
    Json.Canon collidingAnswer ∧
      ¬ Json.Keeps wrapToolOutput collidingAnswer
        (Json.mapJsonStringsAndKeys wrapToolOutput collidingAnswer) := by
  constructor
  · exact Json.canon_obj_iff.mpr ⟨by decide, by simp [Json.Canon]⟩
  · rw [map_collidingAnswer]
    rintro ⟨n, hn, hlength, -⟩
    cases hn
    cases hlength

end Wheel
