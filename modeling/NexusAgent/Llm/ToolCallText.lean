import NexusAgent.Lib.CharTable
import NexusAgent.Lib.Enclosed
import NexusAgent.Lib.Json
import NexusAgent.Lib.Replace
import NexusAgent.Lib.Split
import NexusAgent.Llm.ContentToolCalls

/-!
# Tool calls in a text

The extraction half of `nexus/llm/content_tool_calls.py`: calls some models write into their text,
as `<tool_call>` blocks or in the form of Gemma, are taken out of it. The eight random digits of an
identifier are given by what stands before them, and `decimal` is the ASCII digit for a digit of
any script. Texts beyond the limits of the interpreter, at which its reader raises, are left out.
-/

open Lib Lib.Regex

namespace Nexus

/-! ### Patterns -/

/-- A letter of a pattern with case ignored: an `i` stands for the dotted capital and the dotless
small letter, too. -/
def ignoreCase (a c : Char) : Bool :=
  c.toLower = a || (a = 'i' && (c = '\u0130' || c = '\u0131'))

/-- `\s*`. -/
def spaces : Regex := .many PyStr.isSpace 0 none false

/-- `_TOOL_CALL_BLOCK`. -/
def toolCallBlock : Regex :=
  enclosed 1 (literal ignoreCase "<tool_call>".toList) ignoreCase "</tool_call>".toList

/-- An opening tag that ends with a name. -/
def namedTag (tag : String) (p : Char → Bool) : Regex :=
  .seq (literal ignoreCase tag.toList) (.seq (.group 1 (.many p 1 none false)) (.one (· = '>')))

section

variable (table : CharTable)

/-- `[\w_.]`. -/
def functionChar (c : Char) : Bool := table.word c || c = '_' || c = '.'

/-- `[\w_]`. -/
def parameterChar (c : Char) : Bool := table.word c || c = '_'

/-- `_FUNCTION_TAG`. -/
def functionTag : Regex :=
  enclosed 2 (namedTag "<function=" (functionChar table)) ignoreCase "</function>".toList

/-- `_PARAMETER_TAG`. -/
def parameterTag : Regex :=
  enclosed 2 (namedTag "<parameter=" (parameterChar table)) ignoreCase "</parameter>".toList

/-- `_GEMMA_TOOL_CALL`. -/
def gemmaToolCall : Regex :=
  .seq (literal ignoreCase "<|tool_call>".toList) <| .seq spaces <|
    .seq (literal ignoreCase "call:".toList) <| .seq spaces <|
      .seq (.group 1 (.many (parameterChar table) 1 none false)) <| .seq spaces <|
        .seq (.group 2 (.seq (.one (· = '\x7b'))
          (.seq (.many (fun _ => true) 0 none true) (.one (· = '\x7d'))))) <|
          .seq spaces (literal ignoreCase "<tool_call|>".toList)

/-- A text between two of Gemma's quotes. -/
def gemmaQuoted : Regex :=
  enclosed 1 (literal (fun a c => a = c) "<|\"|>".toList) (fun a c => a = c) "<|\"|>".toList

/-- A key without quotes. -/
def gemmaKey : Regex :=
  .seq (.group 1 (.seq (.one fun c => c = '\x7b' || c = ',') spaces)) <|
    .seq (.group 2 (.seq (.one fun c => c.isAlpha || c = '_') (.many table.word 0 none false)))
      (.group 3 (.seq spaces (.one (· = ':'))))

end

/-! ### Values -/

/-- Digits with single underscores between them. -/
def isDigitPart (cs : List Char) : Bool := (PyStr.intDigits false cs).isSome

/-- The text without its sign. -/
def dropSign (cs : List Char) : List Char :=
  match cs with
  | '-' :: r => r
  | '+' :: r => r
  | _ => cs

/-- `float(s)` takes the text, which has a point or an exponent in it. -/
def isPyFloat (cs : List Char) : Bool :=
  let (mantissa, exponent) := (dropSign cs).span fun c => c ≠ 'e' ∧ c ≠ 'E'
  let (whole, decimals) := mantissa.span (· ≠ '.')
  let mantissaOk :=
    match decimals with
    | [] => isDigitPart whole
    | _ :: digits =>
      (whole = [] || isDigitPart whole) && (digits = [] || isDigitPart digits) &&
        (whole ≠ [] || digits ≠ [])
  mantissaOk &&
    match exponent with
    | [] => true
    | _ :: digits => isDigitPart (dropSign digits)

section

variable (table : CharTable) (decimal : Char → Char)

/-- `_coerce_parameter_value`. -/
def coerceParameterValue (raw : String) : Json :=
  let paramValue := PyStr.strip raw
  if table.lower paramValue = "true" then .bool true
  else if table.lower paramValue = "false" then .bool false
  else if table.lower paramValue = "null" ∨ paramValue = "" then .null
  else
    match Json.loads paramValue with
    | some value => value
    | none =>
      -- `float` and `int` take decimal digits of any script
      let digits := paramValue.toList.map decimal
      if '.' ∈ paramValue.toList ∨ 'e' ∈ (table.lower paramValue).toList then
        if isPyFloat digits then .float paramValue else .str paramValue
      else
        match PyStr.pyInt digits with
        | some n => .int n
        | none => .str paramValue

/-! ### Blocks -/

/-- The arguments of a function, from its `<parameter>` tags. -/
def parseParameters (functionBody : String) : ToolArgs :=
  ((parameterTag table).finditer functionBody.toList).foldl
    (fun args paramMatch =>
      Dict.set args (PyStr.strip (paramMatch.group 1))
        (coerceParameterValue table decimal (paramMatch.group 2)))
    []

/-- `_parse_one_nemotron_block`. -/
def parseOneNemotronBlock (body idSuffix : String) : Option ToolCallRequest :=
  match (functionTag table).search body.toList with
  | none => none
  | some functionMatch =>
    let toolName := PyStr.strip (functionMatch.group 1)
    if toolName = "" then none
    else
      some { id := "call_" ++ idSuffix
             toolName := toolName
             toolInput := parseParameters table decimal (functionMatch.group 2) }

/-- The end of the identifier of the call at a place: the kind, the place and eight digits. -/
def callIdSuffix (hex : String → String) (kind : String) (idx : ℕ) : String :=
  let start := kind ++ "_" ++ toString idx ++ "_"
  start ++ hex start

variable (hex : String → String)

/-- `parse_nemotron_tool_calls`. -/
def parseNemotronToolCalls (text : String) : List ToolCallRequest × String :=
  if text = "" then ([], text)
  else
    let toolCalls := (toolCallBlock.finditer text.toList).zipIdx.filterMap fun p =>
      parseOneNemotronBlock table decimal (p.1.group 1) (callIdSuffix hex "xml" p.2)
    let cleaned := PyStr.strip (String.ofList (toolCallBlock.sub [] text.toList))
    (toolCalls, cleaned)

/-- The arguments of a call in the form of Gemma, after they were made JSON. -/
def parseGemmaArgs (group : String) : ToolArgs :=
  let quoted := gemmaQuoted.subWith (fun m => (Json.quote (m.group 1)).toList)
    (PyStr.strip group).toList
  let replaced := PyStr.replace "<|\"|>" "\"" (String.ofList quoted)
  let keyed := (gemmaKey table).subWith
    (fun m => (m.group 1 ++ "\"" ++ m.group 2 ++ "\"" ++ m.group 3).toList) replaced.toList
  match Json.loads (String.ofList keyed) with
  | some (.obj fields) => fields
  | _ => []

/-- `parse_gemma_tool_calls`. -/
def parseGemmaToolCalls (text : String) : List ToolCallRequest × String :=
  if text = "" then ([], text)
  else
    let toolCalls := ((gemmaToolCall table).finditer text.toList).zipIdx.map fun p =>
      ({ id := "call_" ++ callIdSuffix hex "gemma" p.2
         toolName := PyStr.strip (p.1.group 1)
         toolInput := parseGemmaArgs table (p.1.group 2) } : ToolCallRequest)
    let cleaned := PyStr.strip (String.ofList ((gemmaToolCall table).sub [] text.toList))
    (toolCalls, cleaned)

/-- `extract_tool_calls_from_text`. -/
def extractToolCallsFromText : Option String → List ToolCallRequest × Option String
  | none => ([], none)
  | some text =>
    if text = "" ∨ PyStr.isBlank text = true then ([], some text)
    else
      let (nemotronCalls, afterNemotron) := parseNemotronToolCalls table decimal hex text
      if !nemotronCalls.isEmpty then (nemotronCalls, truthy (some afterNemotron))
      else
        let (gemmaCalls, afterGemma) := parseGemmaToolCalls table hex text
        if !gemmaCalls.isEmpty then (gemmaCalls, truthy (some afterGemma))
        else ([], some text)

end

end Nexus
