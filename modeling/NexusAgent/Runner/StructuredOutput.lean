import NexusAgent.Lib.Json
import NexusAgent.Llm.Response

/-!
# Structured output

`nexus/runner/structured_output.py`: the final text of a run with a result type is
parsed as JSON and validated, and a failure becomes the message of a retry. The
validator of the result type and the text of a JSON decoding error are parameters.
Texts beyond the limits of the interpreter, at which its reader raises, are left out.
-/

open Lib

namespace Nexus

/-- The type a run's structured result is validated against. -/
inductive ResultType
  /-- A model class, with its validation: the dumped model, or the error text. -/
  | model (validate : Json → Except String Json)
  /-- Any other type: the text has to be a JSON object. -/
  | other

/-- `validate_structured_result`. -/
def validateStructuredResult (jsonErrorText : String → String) (content : Option String)
    (resultType : ResultType) : Except String Json :=
  let text := content.getD ""
  if PyStr.isBlank text then
    .error "Structured output expected but assistant returned empty content"
  else
    match Json.loads text with
    | none => .error ("Structured output is not valid JSON: " ++ jsonErrorText text)
    | some raw =>
      match resultType with
      | .model validate =>
        match validate raw with
        | .ok dumped => .ok dumped
        | .error e => .error ("Structured output validation failed: " ++ e)
      | .other =>
        -- any other type takes an object as it is
        match raw with
        | .obj _ => .ok raw
        | _ => .error "Structured output must be a JSON object"

/-- `format_validation_retry_message`. -/
def formatValidationRetryMessage (error : String) : String :=
  "Your previous response did not match the required output schema. " ++
    "Validation error: " ++ error ++ ". " ++
    "Respond again with valid JSON matching the schema."

/-- A retry message is never empty. -/
theorem formatValidationRetryMessage_ne (error : String) :
    formatValidationRetryMessage error ≠ "" := by
  unfold formatValidationRetryMessage
  intro h
  have h_end := (String.append_eq_empty_iff.mp h).2
  exact absurd h_end (by decide)

end Nexus
