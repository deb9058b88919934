set_option autoImplicit false

/-!
# Help

The texts that answer a request for help or for the version.
-/

namespace TreeHeaders.CommandLine

/-- The lines, each with a line feed after it. -/
def linesText (lines : List String) : String :=
  String.join (lines.map (· ++ "\n"))

/-- The lines of the help in short. -/
def shortHelpLines : List String :=
  ["astgen (v1.0.0)",
   "Generate visitor-based syntax tree headers from a node catalogue.",
   "",
   "Usage: astgen [OPTIONS] <DIRECTORY>",
   "",
   "Arguments:",
   "  <DIRECTORY>  The directory to write the headers into",
   "",
   "Options:",
   ("      --schema <SCHEMA>  Read the node catalogue from a JSON schema file, instead " ++
    "of the built-in Lox catalogue"),
   "      --dryrun           Preview the generated headers. Do not write to the directory",
   ("      --check            Check the headers in the directory are up to date. Do not " ++
    "write to the directory"),
   "  -v, --verbose...       Log what is being generated. Repeat for more detail",
   "  -h, --help             Print help (see more with '--help')",
   "  -V, --version          Print version",
   "",
   "Generator Config:",
   "      --config-namespace <CONFIG_NAMESPACE>",
   ("          Namespace to declare the nodes in. Also prefixes the inclusion guards " ++
    "[default: lox]"),
   "      --config-indent-size <CONFIG_INDENT_SIZE>",
   "          Indentation size (spaces) to use. If 0 uses tabs [default: 2]",
   "      --config-line-ending <CONFIG_LINE_ENDING>",
   "          Line ending to use [default: lf] [possible values: lf, crlf, native]",
   "      --config-extension <CONFIG_EXTENSION>",
   "          File extension of the headers [default: h]"]

/-- The lines of the help in full. -/
def fullHelpLines : List String :=
  ["astgen (v1.0.0)",
   "Generate visitor-based syntax tree headers from a node catalogue.",
   "",
   "Usage: astgen [OPTIONS] <DIRECTORY>",
   "",
   "Arguments:",
   "  <DIRECTORY>",
   "          The directory to write the headers into",
   "",
   "Options:",
   "      --schema <SCHEMA>",
   ("          Read the node catalogue from a JSON schema file, instead of the built-in " ++
    "Lox catalogue"),
   "",
   "      --dryrun",
   "          Preview the generated headers. Do not write to the directory",
   "",
   "      --check",
   "          Check the headers in the directory are up to date. Do not write to the directory",
   "",
   "  -v, --verbose...",
   "          Log what is being generated. Repeat for more detail",
   "",
   "  -h, --help",
   "          Print help (see a summary with '-h')",
   "",
   "  -V, --version",
   "          Print version",
   "",
   "Generator Config:",
   "      --config-namespace <CONFIG_NAMESPACE>",
   "          Namespace to declare the nodes in. Also prefixes the inclusion guards",
   "          ",
   "          [default: lox]",
   "",
   "      --config-indent-size <CONFIG_INDENT_SIZE>",
   "          Indentation size (spaces) to use. If 0 uses tabs",
   "          ",
   "          [default: 2]",
   "",
   "      --config-line-ending <CONFIG_LINE_ENDING>",
   "          Line ending to use",
   "",
   "          Possible values:",
   "          - lf:     `\\n`",
   "          - crlf:   `\\r\\n`",
   "          - native: `\\r\\n` on Windows, otherwise `\\n`",
   "          ",
   "          [default: lf]",
   "",
   "      --config-extension <CONFIG_EXTENSION>",
   "          File extension of the headers",
   "          ",
   "          [default: h]"]

/-- The answer to a request for help. -/
def helpText (full : Bool) : String :=
  linesText (if full then fullHelpLines else shortHelpLines)

/-- The answer to a request for the version. -/
def versionText : String :=
  "astgen 1.0.0\n"

end TreeHeaders.CommandLine
