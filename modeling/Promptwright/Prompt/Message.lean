import Promptwright.Json.Value

/-! # Chat messages

A message is written by a user, by the assistant, or by a tool that answers a call of the
assistant.  `Message.toJson` is the form in which generated modules hold messages. -/

namespace Promptwright

/-- A call of a tool.  The arguments are a text that holds JSON, or the value itself. -/
structure ToolCall where
  id : String
  name : String
  arguments : Json

/-- A message of a conversation. -/
inductive Message
  | user (content : String) (name : Option String)
  | assistant (content : String) (calls : List ToolCall)
  | tool (callId name : String) (result : Json) (isError : Bool)

/-- The call as an object; the function that is called is an object of its own. -/
def ToolCall.toJson (c : ToolCall) : Json :=
  .object [
    ("id", .string c.id),
    ("function", .object [("name", .string c.name), ("arguments", c.arguments)])]

namespace Message

/-- The message as an object.  The role comes first, and a name or calls only where there are
any. -/
def toJson : Message → Json
  | .user content none =>
    .object [("role", .string "user"), ("content", .string content)]
  | .user content (some name) =>
    .object [("role", .string "user"), ("content", .string content), ("name", .string name)]
  | .assistant content [] =>
    .object [("role", .string "assistant"), ("content", .string content)]
  | .assistant content (c :: cs) =>
    .object [
      ("role", .string "assistant"),
      ("content", .string content),
      ("toolCalls", .array ((c :: cs).map ToolCall.toJson))]
  | .tool callId name result isError =>
    .object [
      ("role", .string "tool"),
      ("toolCallId", .string callId),
      ("toolName", .string name),
      ("result", result),
      ("isError", .bool isError)]

/-- A conversation as an array. -/
def listToJson (ms : List Message) : Json := .array (ms.map toJson)

end Message

end Promptwright
