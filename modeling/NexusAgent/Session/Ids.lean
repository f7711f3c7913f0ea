import NexusAgent.Lib.Delimited

/-!
# Session ids of a group

`nexus/session/ids.py`. A member works under the id of the group's root chat followed by an
underscore and the name of the member; a session is found to be a member's by reading its id
the other way round.
-/

open Lib

namespace Nexus

/-- `INTERNAL_SESSION_SUFFIX`. -/
def internalSessionSuffix : String := "__memcurator"

/-- `member_session_id`. -/
def memberSessionId (root memberName pre : String) : String := pre ++ root ++ "_" ++ memberName

/-- `group_session_prefix`. -/
def groupSessionPrefix (root pre : String) : String := pre ++ root ++ "_"

/-- `parse_member_name`. -/
def parseMemberName (sessionId root pre : String) : Option String :=
  let expectedPrefix := groupSessionPrefix root pre
  if PyStr.startsWith sessionId expectedPrefix then
    let memberName := PyStr.dropFirst expectedPrefix.length sessionId
    if memberName = "" || PyStr.endsWith memberName internalSessionSuffix then none
    else some memberName
  else none

/-- `is_internal_session`. -/
def isInternalSession (sessionId root pre : String) : Bool :=
  sessionId = pre ++ root ++ internalSessionSuffix || PyStr.endsWith sessionId internalSessionSuffix

/-! ### Reading an id -/

theorem memberSessionId_eq (root name pre : String) :
    memberSessionId root name pre = groupSessionPrefix root pre ++ name := rfl

/-- The ids with a group's prefix are those of its members. -/
theorem startsWith_groupSessionPrefix {sessionId root pre : String} :
    PyStr.startsWith sessionId (groupSessionPrefix root pre) = true ↔
      ∃ name, sessionId = memberSessionId root name pre := by
  simp only [PyStr.startsWith, List.isPrefixOf_iff_prefix, memberSessionId_eq]
  constructor
  · rintro ⟨rest, h⟩
    refine ⟨String.ofList rest, String.toList_inj.mp ?_⟩
    rw [← h, String.toList_append, String.toList_ofList]
  · rintro ⟨name, rfl⟩
    rw [String.toList_append]
    exact List.prefix_append _ _

/-- Whether an id is internal is said by its end. -/
theorem isInternalSession_eq (sessionId root pre : String) :
    isInternalSession sessionId root pre = PyStr.endsWith sessionId internalSessionSuffix := by
  unfold isInternalSession
  by_cases h : sessionId = pre ++ root ++ internalSessionSuffix
  · have h_suffix : PyStr.endsWith sessionId internalSessionSuffix = true := by
      rw [h, PyStr.endsWith, List.isSuffixOf_iff_suffix, String.toList_append]
      exact List.suffix_append _ _
    simp [h_suffix]
  · simp [h]

/-- **What the id of a member is read as**: its name, unless that is empty or ends like the
id of a curator. -/
theorem parse_memberSessionId (root name pre : String) :
    parseMemberName (memberSessionId root name pre) root pre =
      if name = "" ∨ PyStr.endsWith name internalSessionSuffix = true then none else some name := by
  have h_prefix : PyStr.startsWith (memberSessionId root name pre) (groupSessionPrefix root pre) =
      true := startsWith_groupSessionPrefix.mpr ⟨name, rfl⟩
  have h_name : PyStr.dropFirst (groupSessionPrefix root pre).length (memberSessionId root name pre)
      = name := by
    rw [memberSessionId_eq, PyStr.dropFirst, String.toList_append, ← String.length_toList,
      List.drop_left, String.ofList_toList]
  simp only [parseMemberName, h_prefix, h_name, if_true, Bool.or_eq_true, decide_eq_true_eq]

/-- A name that is read is the rest of the id. -/
theorem eq_of_parseMemberName {sessionId root pre name : String}
    (h : parseMemberName sessionId root pre = some name) :
    sessionId = memberSessionId root name pre := by
  have h_prefix : PyStr.startsWith sessionId (groupSessionPrefix root pre) = true := by
    by_contra h_not
    simp [parseMemberName, h_not] at h
  obtain ⟨name', rfl⟩ := startsWith_groupSessionPrefix.mp h_prefix
  rw [parse_memberSessionId] at h
  split_ifs at h
  rw [Option.some.inj h]

/-- Members of one root differ in their names. -/
theorem memberSessionId_inj {root pre name name' : String} :
    memberSessionId root name pre = memberSessionId root name' pre ↔ name = name' := by
  rw [memberSessionId_eq, memberSessionId_eq, ← String.toList_inj, String.toList_append,
    String.toList_append, List.append_cancel_left_eq, String.toList_inj]

end Nexus
