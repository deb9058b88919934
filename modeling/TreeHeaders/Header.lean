import TreeHeaders.Node

set_option autoImplicit false

/-!
# Headers

One header per family, laid out so that every name is declared before it is used: includes,
forward declarations, the abstract base, the visitor, then the concrete nodes.
-/

namespace TreeHeaders

/-- The generated header of one family. -/
structure Header where
  /-- the basename of the family -/
  family : String
  /-- the file to which the header is written -/
  fileName : String
  /-- the headers of other families that this header includes -/
  dependencies : List String
  /-- the text of the header -/
  contents : String
  deriving DecidableEq, Repr, Inhabited

namespace Family

/-- The first line of every header. -/
def banner : Line :=
  .flat "// Generated by astgen from the node catalogue. Do not edit."

/-- The headers of the standard library that every header includes. -/
def standardHeaders : List String :=
  ["cstddef", "memory", "string", "utility", "variant", "vector"]

/-- The headers of the other families whose nodes are held. -/
def dependencies (family : Family) (config : Config) : List String :=
  family.references.map (Naming.headerFile config)

/-- The headers that are not of the standard library: dependencies, then that of
the token type. -/
def localHeaders (family : Family) (config : Config) : List String :=
  family.dependencies config ++
    if family.usesToken then [Naming.headerFile config tokenName] else []

/-- The line that includes a header of the project. -/
def includeLine (file : String) : Line :=
  .flat ("#include \"" ++ file ++ "\"")

/-- The lines that include headers of the project, set off from what follows. -/
def localIncludeLines (family : Family) (config : Config) : List Line :=
  match family.localHeaders config with
  | [] => []
  | files => files.map includeLine ++ [.blank]

/-- The lines that include headers of the standard library. -/
def standardIncludeLines : List Line :=
  standardHeaders.map fun file => .flat ("#include <" ++ file ++ ">")

/-- The alias for the result type, set off from what follows. -/
def resultLines (family : Family) : List Line :=
  match family.contract with
  | .effect => []
  | .value result =>
    [.flat ("using " ++ result ++ " = std::variant<" ++
      ", ".intercalate (Primitive.all.map Naming.primitive) ++ ">;"), .blank]

/-- The forward declarations of the node types. -/
def forwardLines (family : Family) : List Line :=
  family.nodes.map fun node => .flat ("struct " ++ node.name ++ ";")

/-- The line of the pure virtual entry point of the base for a result type. -/
def baseEntryLine (family : Family) (result : String) : Line :=
  .flat ("virtual " ++ result ++ " accept(" ++ Naming.visitor family.basename result ++ " &) = 0;")

/-- The abstract base, with one pure virtual entry point per result type. -/
def baseLines (family : Family) : List Line :=
  [.flat ("struct " ++ family.basename ++ " \x7b")] ++
    Line.indented
      (family.results.map family.baseEntryLine ++
        [.flat ("virtual ~" ++ family.basename ++ "() = default;")]) ++
    [.flat "\x7d;"]

/-- The aliases for the handle and the list type. -/
def aliasLines (family : Family) : List Line :=
  let handle := Naming.handle family.basename
  [.flat ("using " ++ handle ++ " = std::unique_ptr<" ++ family.basename ++ ">;"),
   .flat ("using " ++ Naming.list family.basename ++ " = std::vector<" ++ handle ++ ">;")]

/-- The definitions of the node types, each set off from what follows. -/
def nodeLines (family : Family) : List Line :=
  family.nodes.flatMap fun node => node.lines ++ [.blank]

/-- What stands between the braces of the namespace of the nodes. -/
def bodyLines (family : Family) : List Line :=
  family.resultLines ++ family.visitor.declarationLines ++ [.blank] ++ family.forwardLines ++
    [.blank] ++ family.baseLines ++ [.blank] ++ family.aliasLines ++ [.blank] ++
    family.visitor.lines ++ [.blank] ++ family.nodeLines

/-- All lines of the header. -/
def headerLines (family : Family) (config : Config) : List Line :=
  let guard := Naming.guard config family.basename
  [banner, .flat ("#ifndef " ++ guard), .flat ("#define " ++ guard), .blank] ++
    family.localIncludeLines config ++ standardIncludeLines ++ [.blank] ++
    [.flat ("namespace " ++ config.namespaceName ++ " \x7b"), .blank] ++ family.bodyLines ++
    [.flat ("\x7d // namespace " ++ config.namespaceName), .blank, .flat ("#endif // " ++ guard)]

/-- The header of the family. -/
def header (family : Family) (config : Config) : Header where
  family := family.basename
  fileName := Naming.headerFile config family.basename
  dependencies := family.dependencies config
  contents := Line.renderAll config (family.headerLines config)

end Family

/-- The headers of all families, in catalogue order. -/
def Catalogue.headers (catalogue : Catalogue) (config : Config) : List Header :=
  catalogue.families.map fun family => family.header config

end TreeHeaders
