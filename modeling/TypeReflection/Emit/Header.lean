import TypeReflection.Plan
import TypeReflection.FileId
import TypeReflection.Emit.Quote
import TypeReflection.Emit.Macro

/-!
# Generated headers

The companion header generated for one reflected header holds, in order:
1. a comment naming the header it was generated from;
2. a guard that stops the header being included twice;
3. the line `#define CURRENT_FILE_ID <id>` recording the file id;
4. a declaration of each type's getter;
5. one `_<id>_<line>_GENERATED_BODY` macro per record anchored at `<line>`, giving the
   registry access to the record's properties;
6. the `_<id>_IMPLEMENTATION` macro, expanded once by the project's registration header, with
   the accessors and the four registration functions.

Every generated name carries the file id, so that headers of one project never clash, and the
output depends only on the declarations, the id and the include path.
-/

set_option autoImplicit false

namespace TypeReflection

/-- A generated header: the id it is stamped with, the include path of its header, and its
text. -/
structure GeneratedFile where
  id : FileId
  includePath : String
  contents : String
  deriving DecidableEq, Repr

namespace Emit

/-- The include path with every character other than an ASCII letter, digit or underscore
replaced by an underscore, for use in a macro name. -/
def guardFragment (path : String) : String :=
  String.ofList (path.toList.map fun c => if c.isAlphanum || c == '_' then c else '_')

/-- A decorator list as an initializer of `Meta::Decorator` values. -/
def decoratorList (ds : DecoratorList) : String :=
  if ds.isEmpty then "\x7b\x7d"
  else
    let item (d : Decorator) : String :=
      let name := Quote.literal d.name
      if d.values.isEmpty then "Meta::Decorator\x7b " ++ name ++ ", \x7b\x7d \x7d"
      else
        "Meta::Decorator\x7b " ++ name ++ ", \x7b " ++
          ", ".intercalate (d.values.map Quote.literal) ++ " \x7d \x7d"
    "\x7b " ++ ", ".intercalate (ds.items.map item) ++ " \x7d"

/-- The name of the getter of type `type`. -/
def typeGetter (id type : String) : String := s!"Z_{type}_{id}_GetType"

/-- The name of the getter of property `property` of `owner`. -/
def propertyGetter (id owner property : String) : String := s!"Z_{owner}_{id}_Get_{property}"

/-- The name of the setter of property `property` of `owner`. -/
def propertySetter (id owner property : String) : String := s!"Z_{owner}_{id}_Set_{property}"

/-- The comment naming the header, and the guard against including it twice. -/
def guardLines (id includePath : String) : String :=
  let guard := "_META_" ++ guardFragment includePath ++ "_" ++ id ++ "_"
  "// Generated by reflector from " ++ includePath ++ ". Do not edit.\n\n" ++
    "#ifdef " ++ guard ++ "\n" ++
    "#error \"" ++ includePath ++ " already included, missing '#pragma once' in " ++ includePath ++
      "\"\n" ++
    "#endif\n" ++
    "#define " ++ guard ++ "\n\n"

/-- The comment, guard, id record and type getter declarations. -/
def preamble (plan : RegistrationPlan) (id includePath : String) : String :=
  let getters :=
    if plan.types.isEmpty then ""
    else String.join (plan.types.map fun t => "const Meta::Type* " ++ typeGetter id t.name ++ "();\n")
      ++ "\n"
  guardLines id includePath ++
    "#undef CURRENT_FILE_ID\n" ++
    FileId.definePrefix ++ id ++ "\n\n" ++ getters

/-- The body macro of a type anchored at `line`. -/
def bodyMacro (plan : RegistrationPlan) (id : String) (t : TypeRegistration) (line : Nat) :
    String :=
  let friends := (plan.propertiesOf t.name).flatMap fun p =>
    ("\tfriend const auto& " ++ propertyGetter id t.name p.name ++ "(const void* object);") ::
      (if p.readOnly then []
       else ["\tfriend void " ++ propertySetter id t.name p.name ++ "(void* object, " ++ p.type ++
          " const& value);"])
  let typeLines := match t.kind with
    | .cls => ["\tvirtual const Meta::Type* GetType() const override \x7b return GetStaticType(); \x7d",
        "\tvirtual ~" ++ t.name ++ "() = default;"]
    | .struct => ["\tconst Meta::Type* GetType() const \x7b return GetStaticType(); \x7d"]
  let restore := match t.kind with
    | .cls => "private:"
    | .struct => "public:"
  Macro.define s!"_{id}_{line}_GENERATED_BODY"
    (["private:", "\tfriend class Meta::Registry;"] ++ friends ++ ["public:"] ++ typeLines ++
      ["\tstatic const Meta::Type* GetStaticType() \x7b return " ++ typeGetter id t.name ++ "(); \x7d",
        restore])

/-- The body macros of the anchored types, each followed by an empty line. -/
def bodies (plan : RegistrationPlan) (id : String) : String :=
  String.join (plan.types.filterMap fun t => t.bodyLine.map fun line => bodyMacro plan id t line ++ "\n")

/-- The accessors of a property: a getter, and a setter unless it is read-only. -/
def accessors (id : String) (p : PropertyRegistration) : List String :=
  ("const auto& " ++ propertyGetter id p.owner p.name ++ "(const void* object) \x7b return static_cast<const " ++
      p.owner ++ "*>(object)->" ++ p.name ++ "; \x7d") ::
    (if p.readOnly then []
     else ["void " ++ propertySetter id p.owner p.name ++ "(void* object, " ++ p.type ++
        " const& value) \x7b static_cast<" ++ p.owner ++ "*>(object)->" ++ p.name ++ " = value; \x7d"])

/-- The registration of one enum, its values chained, the last ending the statement. -/
def enumLines (e : EnumRegistration) : List String :=
  match e.values with
  | [] => ["\tregistry.AddEnum(" ++ Quote.literal e.name ++ ");"]
  | values =>
    let last := values.length - 1
    ("\tregistry.AddEnum(" ++ Quote.literal e.name ++ ")") ::
      (values.zipIdx.map fun ((name, value), i) =>
        "\t\t.AddValue(" ++ Quote.literal name ++ ", " ++ toString value ++ ")" ++
          (if i == last then ";" else ""))

/-- The registration of one type, with its serializer if it has one. -/
def typeLines (id : String) (t : TypeRegistration) : List String :=
  let decorators := decoratorList t.decorators
  match t.serializer with
  | none => ["\tregistry.AddType<" ++ t.name ++ ">(" ++ Quote.literal t.name ++ ", nullptr, " ++
      decorators ++ ");"]
  | some fields =>
    let fieldLine (f : SerializedField) : String :=
      let getter := propertyGetter id t.name f.property ++ "(object)"
      let value := match f.kind with
        | .value => getter
        | .enum name => "std::string(" ++ Quote.literal (name ++ "::") ++ ").append(registry.FindEnum(" ++
            Quote.literal name ++ ")->ValueToString((int64)" ++ getter ++ "))"
      "\t\tarchive << ArchiveManipulator::Key << " ++ Quote.literal f.property ++
        " << ArchiveManipulator::Value << " ++ value ++ ";"
    ["\tregistry.AddType<" ++ t.name ++ ">(" ++ Quote.literal t.name ++
        ", [&registry](Archive& archive, const void* object)",
      "\t\x7b", "\t\t(void)registry;", "\t\tarchive << ArchiveManipulator::BeginMap;"] ++
      fields.map fieldLine ++
      ["\t\tarchive << ArchiveManipulator::EndMap;", "\t\x7d, " ++ decorators ++ ");"]

/-- The registration of a property on its owner. -/
def propertyLine (id : String) (p : PropertyRegistration) : String :=
  let setter := if p.readOnly then "nullptr" else "&" ++ propertySetter id p.owner p.name
  "\tregistry.FindType(" ++ Quote.literal p.owner ++ ")->AddProperty(" ++ Quote.literal p.name ++
    ", " ++ Quote.literal p.type ++ ", &" ++ propertyGetter id p.owner p.name ++ ", " ++ setter ++
    ", " ++ decoratorList p.decorators ++ ");"

/-- The statements of one registration pass. -/
def passLines (plan : RegistrationPlan) (id : String) : RegistrationPass → List String
  | .enums => plan.enums.flatMap enumLines
  | .types => plan.types.flatMap (typeLines id)
  | .inheritance => plan.inheritance.map fun e =>
      "\tregistry.AddParent(" ++ Quote.literal e.child ++ ", " ++ Quote.literal e.parent ++ ");"
  | .properties => plan.properties.map (propertyLine id)

/-- The function of one registration pass; an empty pass still names its argument. -/
def passFunction (plan : RegistrationPlan) (id : String) (pass : RegistrationPass) : List String :=
  let header := "void " ++ pass.functionName id ++ "(Meta::Registry& registry)"
  match passLines plan id pass with
  | [] => [header, "\x7b (void)registry; \x7d"]
  | lines => [header, "\x7b"] ++ lines ++ ["\x7d"]

/-- The implementation macro. -/
def implementation (plan : RegistrationPlan) (id : String) : String :=
  let getters := plan.types.map fun t =>
    "const Meta::Type* " ++ typeGetter id t.name ++
      "() \x7b static const Meta::Type* type = Meta::Registry::Get().FindType(" ++
      Quote.literal t.name ++ "); return type; \x7d"
  let operators := (plan.enums.filter (·.isScoped)).map fun e =>
    "FORCEINLINE " ++ e.name ++ " operator|(" ++ e.name ++ " a, " ++ e.name ++ " b) \x7b return static_cast<" ++
      e.name ++ ">(static_cast<int64>(a) | static_cast<int64>(b)); \x7d"
  Macro.define s!"_{id}_IMPLEMENTATION"
    (getters ++ plan.properties.flatMap (accessors id) ++ operators ++
      RegistrationPass.all.flatMap (passFunction plan id))

end Emit

/-- The companion header of a header's declarations, stamped with `id`. -/
def emitHeader (decls : FileDecls) (id : FileId) (includePath : String) : GeneratedFile :=
  let plan := RegistrationPlan.ofDecls decls
  ⟨id, includePath,
    Emit.preamble plan id.text includePath ++ Emit.bodies plan id.text ++
      Emit.implementation plan id.text⟩

end TypeReflection
