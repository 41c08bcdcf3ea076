/-! # The shared types

Typed dialects come with a module that declares the types of prompts, tools and messages.  Its
text stands here line by line.  The validator library is imported under its plain name; see
`SharedTypes` for how that is changed. -/

namespace Promptwright

/-- The lines of the module with the shared types. -/
def typesTemplateLines : List String := [
  "/* eslint-disable */",
  "import \x7b z \x7d from 'zod';",
  "",
  "/**",
  " * A call the assistant made to one of the prompt's tools.",
  " */",
  "export interface ToolCall \x7b",
  "  /**",
  "   * The ID of the function call",
  "   */",
  "  id: string;",
  "  function: \x7b",
  "    /**",
  "     * The name of the function to call",
  "     */",
  "    name: string;",
  "    /**",
  "     * The arguments, either structured or as a JSON string",
  "     */",
  "    arguments: unknown;",
  "  \x7d;",
  "\x7d",
  "",
  "export type Message =",
  "  | \x7b",
  "      role: \"user\";",
  "      content: string;",
  "      /**",
  "       * A display name, useful to tell few-shot turns apart from real ones.",
  "       */",
  "      name?: string;",
  "    \x7d",
  "  | \x7b",
  "      role: \"assistant\";",
  "      content: string;",
  "      toolCalls?: ToolCall[];",
  "    \x7d",
  "  | \x7b",
  "      role: \"tool\";",
  "      toolCallId: string;",
  "      toolName: string;",
  "      result: unknown;",
  "      isError: boolean;",
  "    \x7d;",
  "",
  "export interface ToolDefinition \x7b",
  "  /**",
  "   * The name of the tool function, in snake case.",
  "   */",
  "  name: string;",
  "  /**",
  "   * Guidance for the model on when to pick this tool.",
  "   */",
  "  description: string;",
  "  /**",
  "   * Validator for the arguments the model must produce.",
  "   */",
  "  parameters: z.ZodTypeAny;",
  "\x7d",
  "",
  "/**",
  " * A compiled prompt, ready to hand to a model runtime.",
  " */",
  "export interface PromptDefinition \x7b",
  "  name: string;",
  "  version: number;",
  "  /**",
  "   * Default model as \"provider@model\". The runtime may pick another.",
  "   */",
  "  model: string | undefined;",
  "  /**",
  "   * Between 0 and 2. Lower values give less random responses.",
  "   */",
  "  temperature: number;",
  "  systemPrompt: string;",
  "  fewShotMessages?: Message[];",
  "  /**",
  "   * Messages sent after the user's own messages.",
  "   */",
  "  finalMessages?: Message[];",
  "  tools?: ToolDefinition[];",
  "  /**",
  "   * Validator for structured output.",
  "   */",
  "  schema?: z.ZodTypeAny;",
  "\x7d"]

/-- The text of the module with the shared types. -/
def typesTemplate : String := (typesTemplateLines.map (· ++ "\n")).foldr (· ++ ·) ""

end Promptwright
